import OsLab.Ext2.IallocOwners

/-!
# Steps of inode calls

Every step of a call moves the counts together with what it owes them, and keeps the invariant.
-/

namespace OsLab.Ext2
open Bitmap Ledger Runs

variable {τ : Type} {v : InodeVolume} {s : InodeState τ} {t : τ} {p : Pc}

theorem le16AddCpu_modEq (x : Nat) (val : Int) : (le16AddCpu x val : Int) ≡ x + val [ZMOD 2 ^ 16] := by
  unfold le16AddCpu
  rw [Int.toNat_of_nonneg (Int.emod_nonneg _ (by decide))]
  exact Int.mod_modEq _ _

theorem le16AddCpu_lt (x : Nat) (val : Int) : le16AddCpu x val < 2 ^ 16 := by
  unfold le16AddCpu
  have bound := Int.emod_lt_of_pos (x + val) (show (0 : Int) < 2 ^ 16 by decide)
  omega

theorem le16AddCpu_pays {x : Nat} {val c d d' : Int} (paid : d' = d + val) :
    (le16AddCpu x val : Int) - c - d' ≡ x - c - d [ZMOD 2 ^ 16] := by
  have moved := ((le16AddCpu_modEq x val).sub (Int.ModEq.refl c)).sub (Int.ModEq.refl d')
  subst paid
  ring_nf at moved ⊢
  exact moved

theorem dirBits_clear {g k : Nat} (clear : s.inodeBitmap g k = false) : dirBits s g k = false := by
  simp [dirBits, clear]

theorem setCount_dirBits {isDir : Bool} {g k : Nat} (bound : k < v.inodesPerGroup) (clear : s.inodeBitmap g k = false) :
    (setCount (Function.update (dirBits s g) k isDir) v.inodesPerGroup : Int) =
      setCount (dirBits s g) v.inodesPerGroup + if isDir then 1 else 0 := by
  have unset := dirBits_clear clear
  cases isDir with
  | true => simp [setCount_set bound unset]
  | false => rw [← unset, Function.update_eq_self]; simp [unset]

theorem setCount_dirBits_clear {isDir : Bool} {g k : Nat} (bound : k < v.inodesPerGroup)
    (bit : dirBits s g k = isDir) :
    (setCount (Function.update (dirBits s g) k false) v.inodesPerGroup : Int) =
      setCount (dirBits s g) v.inodesPerGroup - if isDir then 1 else 0 := by
  cases isDir with
  | true =>
    rw [← setCount_clear bound bit]
    simp
  | false => rw [← bit, Function.update_eq_self]; simp [bit]

variable [DecidableEq τ] [Fintype τ]

/-! ### Counts -/

/-- A step that touches one group: the counts of the group and the two counters move with what
they count and with what the call owes. -/
theorem Counts.step {s' : InodeState τ} (counts : Counts v s) (pc : s'.pc = Function.update s.pc t p) (g : Nat)
    (inside : g < groupsCount v.toSuperBlock)
    (bits : ∀ g', g' ≠ g → s'.inodeBitmap g' = s.inodeBitmap g' ∧ dirBits s' g' = dirBits s g')
    (descs : ∀ g', g' ≠ g → s'.bgFreeInodesCount g' = s.bgFreeInodesCount g' ∧ s'.bgUsedDirsCount g' = s.bgUsedDirsCount g')
    (debts : ∀ g', g' ≠ g → p.freeDesc g' = (s.pc t).freeDesc g' ∧ p.dirsDesc g' = (s.pc t).dirsDesc g')
    (free : (s'.bgFreeInodesCount g : Int) - clearCount (s'.inodeBitmap g) v.inodesPerGroup - p.freeDesc g ≡
      s.bgFreeInodesCount g - clearCount (s.inodeBitmap g) v.inodesPerGroup - (s.pc t).freeDesc g [ZMOD 2 ^ 16])
    (used : (s'.bgUsedDirsCount g : Int) - setCount (dirBits s' g) v.inodesPerGroup - p.dirsDesc g ≡
      s.bgUsedDirsCount g - setCount (dirBits s g) v.inodesPerGroup - (s.pc t).dirsDesc g [ZMOD 2 ^ 16])
    (small : s'.bgFreeInodesCount g < 2 ^ 16 ∧ s'.bgUsedDirsCount g < 2 ^ 16)
    (freeC : s'.sFreeinodesCounter - clearCount (s'.inodeBitmap g) v.inodesPerGroup - p.freeCounter =
      s.sFreeinodesCounter - clearCount (s.inodeBitmap g) v.inodesPerGroup - (s.pc t).freeCounter)
    (dirsC : s'.sDirsCounter - setCount (dirBits s' g) v.inodesPerGroup - p.dirsCounter =
      s.sDirsCounter - setCount (dirBits s g) v.inodesPerGroup - (s.pc t).dirsCounter) :
    Counts v s' := by
  constructor
  · intro g' inside'
    rw [pc]
    by_cases here : g' = g
    · subst here
      exact (counts.freeDesc g' inside').step t p free
    · rw [(bits g' here).1, (descs g' here).1]
      exact (counts.freeDesc g' inside').local (debts g' here).1
  · intro g' inside'
    rw [pc]
    by_cases here : g' = g
    · subst here
      exact (counts.dirsDesc g' inside').step t p used
    · rw [(bits g' here).2, (descs g' here).2]
      exact (counts.dirsDesc g' inside').local (debts g' here).2
  · intro g' inside'
    by_cases here : g' = g
    · subst here
      exact small
    · rw [(descs g' here).1, (descs g' here).2]
      exact counts.small g' inside'
  · rw [pc]
    refine counts.freeCounter.step_eq t p ?_
    rw [@sum_change (fun j => clearCount (s.inodeBitmap j) v.inodesPerGroup) _ _ _ inside fun j other => by
      rw [(bits j other).1]]
    omega
  · rw [pc]
    refine counts.dirsCounter.step_eq t p ?_
    rw [@sum_change (fun j => setCount (dirBits s j) v.inodesPerGroup) _ _ _ inside fun j other => by
      rw [(bits j other).2]]
    omega

theorem Counts.counters (counts : Counts v s) {freeC dirsC : Int} {live : List LiveInode}
    (free : ∀ g, p.freeDesc g = (s.pc t).freeDesc g) (dirs : ∀ g, p.dirsDesc g = (s.pc t).dirsDesc g)
    (freeMoves : freeC - p.freeCounter = s.sFreeinodesCounter - (s.pc t).freeCounter)
    (dirsMoves : dirsC - p.dirsCounter = s.sDirsCounter - (s.pc t).dirsCounter) :
    Counts v (goto t p { s with sFreeinodesCounter := freeC, sDirsCounter := dirsC, live := live }) := by
  constructor
  · exact fun g inside => (counts.freeDesc g inside).local (free g)
  · exact fun g inside => (counts.dirsDesc g inside).local (dirs g)
  · exact counts.small
  · exact counts.freeCounter.move freeMoves
  · exact counts.dirsCounter.move dirsMoves

theorem InodeInvariant.counters (inv : InodeInvariant v s) {freeC dirsC : Int} (same : p.takes v = (s.pc t).takes v)
    (free : ∀ g, p.freeDesc g = (s.pc t).freeDesc g) (dirs : ∀ g, p.dirsDesc g = (s.pc t).dirsDesc g)
    (freeMoves : freeC - p.freeCounter = s.sFreeinodesCounter - (s.pc t).freeCounter)
    (dirsMoves : dirsC - p.dirsCounter = s.sDirsCounter - (s.pc t).dirsCounter) (next : p.InRange v) :
    InodeInvariant v (goto t p { s with sFreeinodesCounter := freeC, sDirsCounter := dirsC }) where
  owners := Owners.local inv.owners.counters same
  counts := inv.counts.counters free dirs freeMoves dirsMoves
  range := range_goto inv.range next

theorem Counts.desc (counts : Counts v s) {isDir : Bool} {g : Nat} {a b : Int} {live : List LiveInode}
    (inside : g < groupsCount v.toSuperBlock)
    (debts : ∀ g', g' ≠ g → p.freeDesc g' = (s.pc t).freeDesc g' ∧ p.dirsDesc g' = (s.pc t).dirsDesc g')
    (free : p.freeDesc g = (s.pc t).freeDesc g + a)
    (dirs : p.dirsDesc g = (s.pc t).dirsDesc g + if isDir then b else 0)
    (freeC : p.freeCounter = (s.pc t).freeCounter) (dirsC : p.dirsCounter = (s.pc t).dirsCounter) :
    Counts v
      (goto t p
        { s with
          bgFreeInodesCount := Function.update s.bgFreeInodesCount g (le16AddCpu (s.bgFreeInodesCount g) a)
          bgUsedDirsCount :=
            if isDir then Function.update s.bgUsedDirsCount g (le16AddCpu (s.bgUsedDirsCount g) b)
            else s.bgUsedDirsCount
          live := live }) := by
  have small := counts.small g inside
  refine counts.step rfl g inside (fun g' other => ⟨rfl, rfl⟩) ?_ debts ?_ ?_ ?_ ?_ ?_
  · intro g' other
    cases isDir <;> simp [goto, other]
  · simp only [goto, Function.update_self]
    exact le16AddCpu_pays free
  · cases isDir with
    | true =>
      simp only [goto, if_true, Function.update_self]
      exact le16AddCpu_pays dirs
    | false =>
      rw [dirs]
      simp only [goto, Bool.false_eq_true, if_false, add_zero]
      exact Int.ModEq.refl _
  · have low := le16AddCpu_lt (s.bgUsedDirsCount g) b
    refine ⟨?_, ?_⟩
    · simpa only [goto, Function.update_self] using le16AddCpu_lt _ a
    · cases isDir with
      | true => simpa only [goto, if_true, Function.update_self] using low
      | false => exact small.2
  · rw [freeC]; rfl
  · rw [dirsC]; rfl

/-- A step that changes one bit, and owes the counts what they have to move by. -/
theorem Counts.bit (counts : Counts v s) {g k : Nat} {b : Bool} {isDirs : Nat → Bits} {a d : Int}
    (inside : g < groupsCount v.toSuperBlock) (others : ∀ g' j, ¬ (g' = g ∧ j = k) → isDirs g' j = s.isDir g' j)
    (free : (clearCount (Function.update (s.inodeBitmap g) k b) v.inodesPerGroup : Int) =
      clearCount (s.inodeBitmap g) v.inodesPerGroup - a)
    (used : (setCount (Function.update (dirBits s g) k (b && isDirs g k)) v.inodesPerGroup : Int) =
      setCount (dirBits s g) v.inodesPerGroup + d)
    (freeDesc : ∀ g', p.freeDesc g' = (s.pc t).freeDesc g' + if g' = g then a else 0)
    (dirsDesc : ∀ g', p.dirsDesc g' = (s.pc t).dirsDesc g' - if g' = g then d else 0)
    (freeC : p.freeCounter = (s.pc t).freeCounter + a) (dirsC : p.dirsCounter = (s.pc t).dirsCounter - d) :
    Counts v
      (goto t p
        { s with
          inodeBitmap := Function.update s.inodeBitmap g (Function.update (s.inodeBitmap g) k b)
          isDir := isDirs }) := by
  have here : (fun j => Function.update (s.inodeBitmap g) k b j && isDirs g j) =
      Function.update (dirBits s g) k (b && isDirs g k) := by
    funext j
    by_cases bit : j = k
    · subst bit
      rw [Function.update_self, Function.update_self]
    · rw [Function.update_of_ne bit, Function.update_of_ne bit, others g j fun both => bit both.2]
      rfl
  have dirs : dirBits
      (goto t p
        { s with
          inodeBitmap := Function.update s.inodeBitmap g (Function.update (s.inodeBitmap g) k b)
          isDir := isDirs }) g = Function.update (dirBits s g) k (b && isDirs g k) := by
    rw [← here]
    funext j
    simp only [dirBits, goto, Function.update_self]
  refine counts.step rfl g inside ?_ (fun g' other => ⟨rfl, rfl⟩) ?_ ?_ ?_ (counts.small g inside) ?_ ?_
  · intro g' other
    refine ⟨Function.update_of_ne other .., ?_⟩
    funext j
    simp only [dirBits, goto, Function.update_of_ne other, others g' j fun both => other both.1]
  · intro g' other
    rw [freeDesc, dirsDesc, if_neg other, if_neg other]
    exact ⟨add_zero _, sub_zero _⟩
  · refine modEq_of_eq ?_
    simp only [goto, Function.update_self]
    rw [free, freeDesc, if_pos rfl]
    ring
  · refine modEq_of_eq ?_
    rw [dirs, used, dirsDesc, if_pos rfl]
    simp only [goto]
    ring
  · simp only [goto, Function.update_self]
    rw [free, freeC]
    ring
  · rw [dirs, used, dirsC]
    simp only [goto]
    ring

/-! ### Steps -/

theorem InodeInvariant.setBit (inv : InodeInvariant v s) {isDir : Bool} {i g k : Nat}
    (stage : s.pc t = .setBit isDir i g k) (clear : s.inodeBitmap g k = false) :
    InodeInvariant v
      (goto t (.got isDir g k)
        { s with
          inodeBitmap := Function.update s.inodeBitmap g (Function.update (s.inodeBitmap g) k true)
          isDir := Function.update s.isDir g (Function.update (s.isDir g) k isDir) }) := by
  have range := inv.range t
  rw [stage] at range
  obtain ⟨inside, bound⟩ := range
  obtain ⟨usable, -, -⟩ := inv.owners.free inside bound clear
  have count := clearCount_set bound clear
  have dirs := @setCount_dirBits _ v s isDir g k bound clear
  constructor
  · exact inv.owners.setBit inside bound clear rfl
  · refine inv.counts.bit (a := 1) (d := if isDir then 1 else 0) inside (fun _ _ => bit_other) (by omega) ?_ ?_ ?_ ?_ ?_
    · simpa only [Function.update_self, Bool.true_and] using dirs
    · intro g'
      simp [stage, eq_comm]
    · intro g'
      by_cases here : g' = g
      · cases isDir <;> simp [stage, here]
      · cases isDir <;> simp [stage, here, Ne.symm here]
    · rw [stage]
      rfl
    · rw [stage]
      cases isDir <;> rfl
  · exact range_goto inv.range ⟨inside, bound, usable⟩

theorem InodeInvariant.clearBit (inv : InodeInvariant v s) {x : LiveInode} (stage : s.pc t = .clearBit x)
    (usable : v.firstIno ≤ x.iNo)
    (set : s.inodeBitmap ((x.iNo - 1) / v.inodesPerGroup) ((x.iNo - 1) % v.inodesPerGroup) = true) :
    InodeInvariant v
      (goto t (.releaseDesc x.isDir ((x.iNo - 1) / v.inodesPerGroup))
        { s with
          inodeBitmap := Function.update s.inodeBitmap ((x.iNo - 1) / v.inodesPerGroup)
            (Function.update (s.inodeBitmap ((x.iNo - 1) / v.inodesPerGroup)) ((x.iNo - 1) % v.inodesPerGroup) false) }) := by
  have taken : (s.pc t).takes v = some x := by rw [stage]; rfl
  obtain ⟨⟨low, high⟩, kind⟩ := inv.owners.takenKind t x taken
  obtain ⟨inside, bound, number⟩ := inodeNumber_split low high
  generalize (x.iNo - 1) / v.inodesPerGroup = g at *
  generalize (x.iNo - 1) % v.inodesPerGroup = k at *
  have count := clearCount_clear bound set
  have dirs := @setCount_dirBits_clear _ v s x.isDir g k bound (by simp [dirBits, set, kind])
  constructor
  · exact inv.owners.clearBit inside bound number taken usable rfl
  · refine inv.counts.bit (a := -1) (d := -if x.isDir then 1 else 0) inside (fun _ _ _ => rfl) (by omega) ?_ ?_ ?_ ?_ ?_
    · simpa only [Bool.false_and, ← sub_eq_add_neg] using dirs
    · intro g'
      simp [stage, eq_comm]
    · intro g'
      by_cases here : g' = g
      · cases x.isDir <;> simp [stage, here]
      · cases x.isDir <;> simp [stage, here, Ne.symm here]
    · rw [stage]
      rfl
    · rw [stage]
      cases x.isDir <;> rfl
  · exact range_goto inv.range inside

theorem InodeInvariant.updateDesc (inv : InodeInvariant v s) {isDir : Bool} {g k : Nat}
    (stage : s.pc t = .updateDesc isDir g k) :
    InodeInvariant v
      (goto t .idle
        { s with
          bgFreeInodesCount := Function.update s.bgFreeInodesCount g (le16AddCpu (s.bgFreeInodesCount g) (-1))
          bgUsedDirsCount :=
            if isDir then Function.update s.bgUsedDirsCount g (le16AddCpu (s.bgUsedDirsCount g) 1)
            else s.bgUsedDirsCount
          live := ⟨inodeNumber v g k, isDir⟩ :: s.live }) := by
  have range := inv.range t
  rw [stage] at range
  constructor
  · exact (inv.owners.handOut (p := .idle) (by rw [stage]; rfl) rfl).counters
  · refine inv.counts.desc range.1 ?_ ?_ ?_ ?_ ?_ <;> rw [stage]
    · intro g' other
      cases isDir <;> simp [Pc.freeDesc, Pc.dirsDesc, other.symm]
    · simp [Pc.freeDesc]
    · cases isDir <;> simp [Pc.dirsDesc]
    · rfl
    · rfl
  · exact range_goto inv.range trivial

theorem InodeInvariant.releaseDesc (inv : InodeInvariant v s) {isDir : Bool} {g : Nat}
    (stage : s.pc t = .releaseDesc isDir g) :
    InodeInvariant v
      (goto t (.incFreeinodes isDir)
        { s with
          bgFreeInodesCount := Function.update s.bgFreeInodesCount g (le16AddCpu (s.bgFreeInodesCount g) 1)
          bgUsedDirsCount :=
            if isDir then Function.update s.bgUsedDirsCount g (le16AddCpu (s.bgUsedDirsCount g) (-1))
            else s.bgUsedDirsCount }) := by
  have range := inv.range t
  rw [stage] at range
  constructor
  · exact Owners.local inv.owners.counters (by rw [stage]; rfl)
  · refine inv.counts.desc range ?_ ?_ ?_ ?_ ?_ <;> rw [stage]
    · intro g' other
      cases isDir <;> simp [Pc.freeDesc, Pc.dirsDesc, other.symm]
    · simp [Pc.freeDesc]
    · cases isDir <;> simp [Pc.dirsDesc]
    · rfl
    · cases isDir <;> rfl
  · exact range_goto inv.range trivial

/-- A call that holds nothing and owes nothing. -/
structure Pc.Quiet (v : InodeVolume) (p : Pc) : Prop where
  takes : p.takes v = none
  freeDesc : ∀ g, p.freeDesc g = 0
  dirsDesc : ∀ g, p.dirsDesc g = 0
  freeCounter : p.freeCounter = 0
  dirsCounter : p.dirsCounter = 0

theorem Pc.quiet_idle : Pc.idle.Quiet v := ⟨rfl, fun _ => rfl, fun _ => rfl, rfl, rfl⟩

theorem Pc.quiet_nextGroup {isDir : Bool} {i g : Nat} : (Pc.nextGroup isDir i g).Quiet v :=
  ⟨rfl, fun _ => rfl, fun _ => rfl, rfl, rfl⟩

theorem Pc.quiet_repeatInThisGroup {isDir : Bool} {i g k : Nat} : (Pc.repeatInThisGroup isDir i g k).Quiet v :=
  ⟨rfl, fun _ => rfl, fun _ => rfl, rfl, rfl⟩

theorem Pc.quiet_setBit {isDir : Bool} {i g k : Nat} : (Pc.setBit isDir i g k).Quiet v :=
  ⟨rfl, fun _ => rfl, fun _ => rfl, rfl, rfl⟩

theorem InodeInvariant.search (inv : InodeInvariant v s) {q : Pc} (stage : s.pc t = q) (quiet : q.Quiet v)
    (still : p.Quiet v) (next : p.InRange v) : InodeInvariant v (goto t p s) := by
  subst stage
  exact inv.local (still.takes.trans quiet.takes.symm) (fun g => (still.freeDesc g).trans (quiet.freeDesc g).symm)
    (fun g => (still.dirsDesc g).trans (quiet.dirsDesc g).symm) (still.freeCounter.trans quiet.freeCounter.symm)
    (still.dirsCounter.trans quiet.dirsCounter.symm) next

theorem advance_invariant (inv : InodeInvariant v s) (t : τ) : InodeInvariant v (advance v t s) := by
  have range := inv.range t
  cases stage : s.pc t with
  | idle => simpa only [advance, stage] using inv
  | nextGroup isDir i g =>
    simp only [advance, stage]
    split_ifs with more
    · split
      · exact inv.search stage Pc.quiet_nextGroup Pc.quiet_nextGroup trivial
      · rename_i found
        obtain ⟨rfl, inside⟩ := getGroupDesc_some found
        exact inv.search stage Pc.quiet_nextGroup Pc.quiet_repeatInThisGroup inside
    · exact inv.search stage Pc.quiet_nextGroup Pc.quiet_idle trivial
  | repeatInThisGroup isDir i g k =>
    rw [stage] at range
    simp only [advance, stage]
    split_ifs with full
    · exact inv.search stage Pc.quiet_repeatInThisGroup Pc.quiet_nextGroup trivial
    · exact inv.search stage Pc.quiet_repeatInThisGroup Pc.quiet_setBit ⟨range, Nat.not_le.mp full⟩
  | setBit isDir i g k =>
    rw [stage] at range
    simp only [advance, stage]
    split_ifs with raced full
    · exact inv.search stage Pc.quiet_setBit Pc.quiet_nextGroup trivial
    · exact inv.search stage Pc.quiet_setBit Pc.quiet_repeatInThisGroup range.1
    · exact inv.setBit stage (Bool.eq_false_iff.mpr raced)
  | got isDir g k =>
    rw [stage] at range
    obtain ⟨inside, bound, usable⟩ := range
    have valid : ¬ (inodeNumber v g k < v.firstIno ∨ v.inodesCount < inodeNumber v g k) := by
      have high := (inodeNumber_range inside bound).2
      omega
    simp only [advance, stage, if_neg valid]
    refine inv.local ?_ ?_ ?_ ?_ ?_ ⟨inside, bound⟩ <;> rw [stage]
    · rfl
    · exact fun _ => rfl
    · intro _
      cases isDir <;> rfl
    · rfl
    · cases isDir <;> rfl
  | decFreeinodes isDir g k =>
    rw [stage] at range
    simp only [advance, stage]
    cases isDir with
    | true => refine inv.counters ?_ ?_ ?_ ?_ ?_ range <;> rw [stage] <;> simp
    | false => refine inv.counters ?_ ?_ ?_ ?_ ?_ range <;> rw [stage] <;> simp
  | incDirs g k =>
    rw [stage] at range
    simp only [advance, stage]
    refine inv.counters ?_ ?_ ?_ ?_ ?_ range <;> rw [stage] <;> simp
  | updateDesc isDir g k =>
    simp only [advance, stage]
    exact inv.updateDesc stage
  | clearBit x =>
    have taken : (s.pc t).takes v = some x := by rw [stage]; rfl
    obtain ⟨⟨low, high⟩, -⟩ := inv.owners.takenKind t x taken
    obtain ⟨inside, bound, number⟩ := inodeNumber_split low high
    have set := inv.owners.bits _ inside _ bound (Or.inr (Or.inr ⟨t, x, taken, number.symm⟩))
    simp only [advance, stage, set, if_true]
    split_ifs with reserved
    · constructor
      · exact inv.owners.drop rfl
      · refine inv.counts.counters ?_ ?_ ?_ ?_ <;> rw [stage] <;> simp
      · exact range_goto inv.range trivial
    · exact inv.clearBit stage (by omega) set
  | releaseDesc isDir g =>
    simp only [advance, stage]
    exact inv.releaseDesc stage
  | incFreeinodes isDir =>
    simp only [advance, stage]
    cases isDir with
    | true => refine inv.counters ?_ ?_ ?_ ?_ ?_ trivial <;> rw [stage] <;> simp
    | false => refine inv.counters ?_ ?_ ?_ ?_ ?_ trivial <;> rw [stage] <;> simp
  | decDirs =>
    simp only [advance, stage]
    refine inv.counters ?_ ?_ ?_ ?_ ?_ trivial <;> rw [stage] <;> simp

theorem inodeStep_invariant {e : InodeEvent τ} {s' : InodeState τ} (inv : InodeInvariant v s)
    (step : InodeStep v s e s') : InodeInvariant v s' := by
  cases step with
  | newInode t isDir parentGroup parentIno looks ready =>
    cases findGroup v.toSuperBlock parentGroup parentIno looks with
    | none => exact inv.search ready Pc.quiet_idle Pc.quiet_idle trivial
    | some group => exact inv.search ready Pc.quiet_idle Pc.quiet_nextGroup trivial
  | freeInode t x ready owned =>
    constructor
    · exact inv.owners.handIn owned rfl
    · refine inv.counts.counters ?_ ?_ ?_ ?_ <;> rw [ready] <;> simp
    · exact range_goto inv.range trivial
  | advance t => exact advance_invariant inv t

end OsLab.Ext2
