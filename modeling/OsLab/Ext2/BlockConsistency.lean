import OsLab.Ext2.Inode

/-!
# Consistent block states

The four records of which blocks are in use (the bitmaps, the group counts, the percpu
counter, the slots and `i_blocks` of the inodes) and what one allocation, one emptied
slot and one freed run do to their agreement. A leaked block is still marked in its bitmap
and counted in the `i_blocks` of the inode it was taken from, but no slot names it.
-/

namespace OsLab.Ext2
open Bitmap

variable {ι : Type}

/-- The inodes whose slots name blocks: regular files, directories and slow symlinks. A symlink
without blocks is a slow one only when its slots are empty. -/
def Mapped (n : BlockInode) : Prop :=
  n.kind = .reg ∨ n.kind = .dir ∨ n.kind = .lnk ∧ (n.iBlocks ≠ 0 ∨ ∀ k, k < ndirBlocks → n.iData k = 0)

def Holds (inodes : ι → BlockInode) (i : ι) (k b : Nat) : Prop :=
  Mapped (inodes i) ∧ k < ndirBlocks ∧ (inodes i).iData k = b ∧ b ≠ 0

/-- The nonzero slots are the clear bits of the map of the empty ones. -/
def slotCount (n : BlockInode) : Nat := clearCount (fun k => n.iData k = 0) ndirBlocks

def sectors (sb : SuperBlock) : Nat := blocksize sb / 512

structure ConsistentUpTo (v : Volume) (leaked : ι → Finset Nat) (s : BlockState ι) : Prop where
  data : ∀ i k b, Holds s.inodes i k b → DataBlock v.toSuperBlock b
  once : ∀ i k j l b, Holds s.inodes i k b → Holds s.inodes j l b → i = j ∧ k = l
  leakedData : ∀ i, ∀ b ∈ leaked i, DataBlock v.toSuperBlock b
  leakedApart : ∀ i, ∀ b ∈ leaked i, ∀ j k, ¬ Holds s.inodes j k b
  leakedOnce : ∀ i j b, b ∈ leaked i → b ∈ leaked j → i = j
  bits : ∀ g, g < groupsCount v.toSuperBlock → ∀ bit, bit < nblocks v.toSuperBlock g →
    (s.bitmap g bit = true ↔ Metadata v.toSuperBlock (ext2GroupFirstBlockNo v.toSuperBlock g + bit) ∨
      (∃ i k, Holds s.inodes i k (ext2GroupFirstBlockNo v.toSuperBlock g + bit)) ∨
      ∃ i, ext2GroupFirstBlockNo v.toSuperBlock g + bit ∈ leaked i)
  counts : ∀ g, g < groupsCount v.toSuperBlock →
    s.bgFreeBlocksCount g = clearCount (s.bitmap g) (nblocks v.toSuperBlock g)
  counter : s.sFreeblocksCounter = ∑ g ∈ Finset.range (groupsCount v.toSuperBlock), (s.bgFreeBlocksCount g : Int)
  blocks : ∀ i, Mapped (s.inodes i) →
    (s.inodes i).iBlocks = (slotCount (s.inodes i) + (leaked i).card) * sectors v.toSuperBlock

/-- Each block in use is metadata or the block of exactly one slot, and all counts are exact. -/
def Consistent (v : Volume) (s : BlockState ι) : Prop := ConsistentUpTo v (fun _ => ∅) s

/-! ### Sizes -/

section
variable {v : Volume}

theorem sectors_pos : 0 < sectors v.toSuperBlock :=
  Nat.div_pos ((by decide : 512 ≤ 1024).trans blocksize_ge) (by decide)

theorem mul_blocksize (n : Nat) : n * blocksize v.toSuperBlock / 512 = n * sectors v.toSuperBlock := by
  have divides : 512 ∣ blocksize v.toSuperBlock :=
    Nat.pow_dvd_pow 2 ((by decide : 9 ≤ 10).trans v.sizes.1)
  exact Nat.mul_div_assoc n divides

theorem count_small (g : Nat) (inside : g < groupsCount v.toSuperBlock) (bits : Bits) :
    clearCount bits (nblocks v.toSuperBlock g) < 2 ^ 16 := by
  have count := clearCount_le bits (nblocks v.toSuperBlock g)
  have size := nblocks_le inside
  have group := v.perGroup.2
  have block := blocksize_le (v := v)
  omega

end

/-! ### Slots -/

section
variable {inodes : ι → BlockInode} {n : BlockInode} {i j : ι} {k b : Nat}

theorem Mapped.kinds (mapped : Mapped n) : n.kind = .reg ∨ n.kind = .dir ∨ n.kind = .lnk := by
  rcases mapped with reg | dir | lnk
  · exact Or.inl reg
  · exact Or.inr (Or.inl dir)
  · exact Or.inr (Or.inr lnk.1)

/-- Exact counts keep the inode in its class. -/
theorem mapped_of_blocks {c r : Nat} (kinds : n.kind = .reg ∨ n.kind = .dir ∨ n.kind = .lnk) (some : 0 < r)
    (blocks : n.iBlocks = (slotCount n + c) * r) : Mapped n := by
  rcases kinds with reg | dir | lnk
  · exact Or.inl reg
  · exact Or.inr (Or.inl dir)
  · refine Or.inr (Or.inr ⟨lnk, ?_⟩)
    by_cases zero : n.iBlocks = 0
    · right
      intro k inside
      by_contra used
      have counted : 0 < slotCount n := clearCount_pos inside (by simpa using used)
      rw [zero] at blocks
      have product : 0 < (slotCount n + c) * r := Nat.mul_pos (by omega) some
      omega
    · exact Or.inl zero

theorem Mapped.emptied (mapped : Mapped n) : Mapped { n with iData := Function.update n.iData k 0 } := by
  rcases mapped with reg | dir | ⟨lnk, some | empty⟩
  · exact Or.inl reg
  · exact Or.inr (Or.inl dir)
  · exact Or.inr (Or.inr ⟨lnk, Or.inl some⟩)
  · refine Or.inr (Or.inr ⟨lnk, Or.inr fun l inside => ?_⟩)
    by_cases here : l = k
    · subst here
      exact Function.update_self ..
    · exact (Function.update_of_ne here ..).trans (empty l inside)

variable [DecidableEq ι]

theorem holds_update_self (mapped : Mapped n) :
    Holds (Function.update inodes i n) i k b ↔ k < ndirBlocks ∧ n.iData k = b ∧ b ≠ 0 := by
  simp [Holds, mapped]

theorem holds_update_of_ne (other : j ≠ i) :
    Holds (Function.update inodes i n) j k b ↔ Holds inodes j k b := by
  simp [Holds, Function.update_of_ne other]

theorem holds_iBlocks {c : Nat} (mapped : Mapped (inodes i)) (mapped' : Mapped { inodes i with iBlocks := c }) :
    Holds (Function.update inodes i { inodes i with iBlocks := c }) j k b ↔ Holds inodes j k b := by
  by_cases same : j = i
  · subst same
    rw [holds_update_self mapped']
    simp [Holds, mapped]
  · exact holds_update_of_ne same

theorem slotCount_empty {n : BlockInode} {k : Nat} (inside : k < ndirBlocks) (used : n.iData k ≠ 0) :
    slotCount { n with iData := Function.update n.iData k 0 } + 1 = slotCount n := by
  have moved : (fun l => decide (Function.update n.iData k 0 l = 0)) =
      Function.update (fun l => decide (n.iData l = 0)) k true := by
    funext l
    by_cases same : l = k
    · subst same; simp
    · simp [same]
  unfold slotCount
  rw [moved]
  exact clearCount_set inside (by simpa using used)

theorem slotCount_fill {n : BlockInode} {k b : Nat} (inside : k < ndirBlocks) (hole : n.iData k = 0) (some : b ≠ 0) :
    slotCount { n with iData := Function.update n.iData k b } = slotCount n + 1 := by
  have moved : (fun l => decide (Function.update n.iData k b l = 0)) =
      Function.update (fun l => decide (n.iData l = 0)) k false := by
    funext l
    by_cases same : l = k
    · subst same; simp [some]
    · simp [same]
  unfold slotCount
  rw [moved]
  exact clearCount_clear inside (by simpa using hole)

end

/-! ### One allocation -/

section
variable {v : Volume} {leaked : ι → Finset Nat} {s : BlockState ι}

namespace ConsistentUpTo

theorem clear (ok : ConsistentUpTo v leaked s) {g bit : Nat} (inside : g < groupsCount v.toSuperBlock)
    (bound : bit < nblocks v.toSuperBlock g) (free : s.bitmap g bit = false) :
    DataBlock v.toSuperBlock (ext2GroupFirstBlockNo v.toSuperBlock g + bit) ∧
      (∀ i k, ¬ Holds s.inodes i k (ext2GroupFirstBlockNo v.toSuperBlock g + bit)) ∧
      ∀ i, ext2GroupFirstBlockNo v.toSuperBlock g + bit ∉ leaked i := by
  have unset := mt (ok.bits g inside bit bound).mpr (by simp [free])
  simp only [not_or, not_exists] at unset
  obtain ⟨noMeta, noHolder, noLeak⟩ := unset
  have low : v.firstDataBlock ≤ ext2GroupFirstBlockNo v.toSuperBlock g + bit := by
    unfold ext2GroupFirstBlockNo
    omega
  exact ⟨⟨low, block_inside inside bound, noMeta⟩, noHolder, noLeak⟩

variable [DecidableEq ι]

theorem allocate (ok : ConsistentUpTo v leaked s) {i : ι} {k g bit : Nat} (mapped : Mapped (s.inodes i))
    (slot : k < ndirBlocks) (hole : (s.inodes i).iData k = 0) (inside : g < groupsCount v.toSuperBlock)
    (bound : bit < nblocks v.toSuperBlock g) (free : s.bitmap g bit = false) :
    ConsistentUpTo v leaked
      { bitmap := Function.update s.bitmap g (Function.update (s.bitmap g) bit true)
        bgFreeBlocksCount :=
          Function.update s.bgFreeBlocksCount g ((s.bgFreeBlocksCount g + (-1 : Int)) % 2 ^ 16).toNat
        sFreeblocksCounter := s.sFreeblocksCounter - 1
        inodes := Function.update s.inodes i
          { s.inodes i with
            iData := Function.update (s.inodes i).iData k (ext2GroupFirstBlockNo v.toSuperBlock g + bit)
            iBlocks := (s.inodes i).iBlocks + sectors v.toSuperBlock } } := by
  obtain ⟨fresh, unheld, unleaked⟩ := ok.clear inside bound free
  set b := ext2GroupFirstBlockNo v.toSuperBlock g + bit with block
  have some : b ≠ 0 := by have := fresh.gt_first; omega
  set n : BlockInode :=
    { s.inodes i with
      iData := Function.update (s.inodes i).iData k b
      iBlocks := (s.inodes i).iBlocks + sectors v.toSuperBlock }
  have blocks : n.iBlocks = (slotCount n + (leaked i).card) * sectors v.toSuperBlock := by
    have count : slotCount n = slotCount (s.inodes i) + 1 := slotCount_fill slot hole some
    change (s.inodes i).iBlocks + sectors v.toSuperBlock = _
    rw [count, ok.blocks i mapped]
    ring
  have mapped' : Mapped n := mapped_of_blocks mapped.kinds sectors_pos blocks
  have holds : ∀ j l c, Holds (Function.update s.inodes i n) j l c ↔
      Holds s.inodes j l c ∨ j = i ∧ l = k ∧ c = b := by
    intro j l c
    by_cases same : j = i
    · subst same
      rw [holds_update_self mapped']
      by_cases here : l = k
      · subst here
        simp only [n, Function.update_self, Holds, hole]
        constructor
        · rintro ⟨-, rfl, -⟩
          exact Or.inr ⟨trivial, trivial, rfl⟩
        · rintro (⟨-, -, rfl, zero⟩ | ⟨-, -, rfl⟩)
          · exact absurd rfl zero
          · exact ⟨slot, rfl, some⟩
      · simp [n, Holds, mapped, here]
    · rw [holds_update_of_ne same]
      simp [same]
  have count := clearCount_set bound free
  have before := ok.counts g inside
  have size := count_small g inside (s.bitmap g)
  have after : ((s.bgFreeBlocksCount g + (-1 : Int)) % 2 ^ 16).toNat =
      clearCount (Function.update (s.bitmap g) bit true) (nblocks v.toSuperBlock g) := by omega
  constructor
  · intro j l c held
    rcases (holds j l c).mp held with old | ⟨-, -, rfl⟩
    · exact ok.data j l c old
    · exact fresh
  · intro j l j' l' c held held'
    rcases (holds j l c).mp held with old | ⟨rfl, rfl, rfl⟩
    · rcases (holds j' l' c).mp held' with old' | ⟨rfl, rfl, rfl⟩
      · exact ok.once j l j' l' c old old'
      · exact absurd old (unheld j l)
    · rcases (holds j' l' b).mp held' with old' | ⟨rfl, rfl, -⟩
      · exact absurd old' (unheld j' l')
      · exact ⟨rfl, rfl⟩
  · exact ok.leakedData
  · intro j c leak j' l held
    rcases (holds j' l c).mp held with old | ⟨-, -, rfl⟩
    · exact ok.leakedApart j c leak j' l old
    · exact unleaked j leak
  · exact ok.leakedOnce
  · intro g' inside' bit' bound'
    by_cases here : g' = g ∧ bit' = bit
    · obtain ⟨rfl, rfl⟩ := here
      simp only [Function.update_self, true_iff]
      exact Or.inr (Or.inl ⟨i, k, (holds i k b).mpr (Or.inr ⟨rfl, rfl, rfl⟩)⟩)
    · have bitmap : Function.update s.bitmap g (Function.update (s.bitmap g) bit true) g' bit' = s.bitmap g' bit' := by
        by_cases group : g' = g
        · subst group
          rw [Function.update_self, Function.update_of_ne fun same => here ⟨rfl, same⟩]
        · rw [Function.update_of_ne group]
      have other : ext2GroupFirstBlockNo v.toSuperBlock g' + bit' ≠ b :=
        fun same => here (block_inj inside' inside bound' bound same)
      simp only [bitmap, holds, other, and_false, or_false]
      exact ok.bits g' inside' bit' bound'
  · intro g' inside'
    by_cases group : g' = g
    · subst group
      simp only [Function.update_self, after]
    · simp only [Function.update_of_ne group]
      exact ok.counts g' inside'
  · simp only [sum_update inside, ok.counter, before]
    omega
  · intro j mappedJ
    by_cases same : j = i
    · subst same
      simp only [Function.update_self]
      exact blocks
    · simp only [Function.update_of_ne same] at mappedJ ⊢
      exact ok.blocks j mappedJ

/-! ### One emptied slot -/

/-- The block of an emptied slot is leaked until it is freed. -/
theorem emptySlot (ok : ConsistentUpTo v leaked s) {i : ι} {k b : Nat} (held : Holds s.inodes i k b) :
    ConsistentUpTo v (Function.update leaked i (insert b (leaked i))) (setSlot i k 0 s) := by
  obtain ⟨mapped, slot, here, some⟩ := held
  have held : Holds s.inodes i k b := ⟨mapped, slot, here, some⟩
  have fresh : b ∉ leaked i := fun leak => ok.leakedApart i b leak i k held
  have member : ∀ j c, c ∈ Function.update leaked i (insert b (leaked i)) j ↔ c ∈ leaked j ∨ j = i ∧ c = b := by
    intro j c
    by_cases same : j = i
    · subst same
      simp [or_comm]
    · simp [same]
  set n : BlockInode := { s.inodes i with iData := Function.update (s.inodes i).iData k 0 }
  have blocks : n.iBlocks = (slotCount n + (insert b (leaked i)).card) * sectors v.toSuperBlock := by
    have count : slotCount n + 1 = slotCount (s.inodes i) := slotCount_empty slot (by rw [here]; exact some)
    rw [Finset.card_insert_of_notMem fresh, ← Nat.add_assoc, Nat.add_right_comm, count]
    exact ok.blocks i mapped
  have mapped' : Mapped n := mapped.emptied
  have holds : ∀ j l c, Holds (setSlot i k 0 s).inodes j l c ↔ Holds s.inodes j l c ∧ ¬ (j = i ∧ l = k) := by
    intro j l c
    change Holds (Function.update s.inodes i n) j l c ↔ _
    by_cases same : j = i
    · subst same
      rw [holds_update_self mapped']
      by_cases at_k : l = k
      · subst at_k
        simp only [n, Function.update_self, and_self, not_true_eq_false, and_false, iff_false, not_and]
        exact fun _ zero nonzero => nonzero zero.symm
      · simp [n, Holds, mapped, at_k]
    · rw [holds_update_of_ne same]
      simp [same]
  constructor
  · exact fun j l c now => ok.data j l c ((holds j l c).mp now).1
  · exact fun j l j' l' c now now' => ok.once j l j' l' c ((holds j l c).mp now).1 ((holds j' l' c).mp now').1
  · intro j c leak
    rcases (member j c).mp leak with old | ⟨-, rfl⟩
    · exact ok.leakedData j c old
    · exact ok.data i k c held
  · intro j c leak j' l' now
    obtain ⟨old, moved⟩ := (holds j' l' c).mp now
    rcases (member j c).mp leak with leak | ⟨-, rfl⟩
    · exact ok.leakedApart j c leak j' l' old
    · exact moved (ok.once j' l' i k c old held)
  · intro j j' c leak leak'
    rcases (member j c).mp leak with old | ⟨rfl, rfl⟩
    · rcases (member j' c).mp leak' with old' | ⟨rfl, rfl⟩
      · exact ok.leakedOnce j j' c old old'
      · exact absurd held (ok.leakedApart j c old j' k)
    · rcases (member j' c).mp leak' with old' | ⟨rfl, -⟩
      · exact absurd held (ok.leakedApart j' c old' j k)
      · rfl
  · intro g inside bit bound
    refine (ok.bits g inside bit bound).trans (or_congr_right ?_)
    simp only [holds, member]
    constructor
    · rintro (⟨j, l, old⟩ | ⟨j, leak⟩)
      · by_cases moved : j = i ∧ l = k
        · obtain ⟨rfl, rfl⟩ := moved
          exact Or.inr ⟨j, Or.inr ⟨rfl, old.2.2.1.symm.trans here⟩⟩
        · exact Or.inl ⟨j, l, old, moved⟩
      · exact Or.inr ⟨j, Or.inl leak⟩
    · rintro (⟨j, l, old, -⟩ | ⟨j, leak | ⟨rfl, same⟩⟩)
      · exact Or.inl ⟨j, l, old⟩
      · exact Or.inr ⟨j, leak⟩
      · exact Or.inl ⟨j, k, same ▸ held⟩
  · exact ok.counts
  · exact ok.counter
  · intro j now
    by_cases same : j = i
    · subst same
      simp only [setSlot, Function.update_self]
      exact blocks
    · simp only [setSlot, Function.update_of_ne same] at now ⊢
      exact ok.blocks j now

end ConsistentUpTo

end

end OsLab.Ext2
