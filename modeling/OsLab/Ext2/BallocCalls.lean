import OsLab.Foundation.Ledger
import OsLab.Foundation.Runs
import OsLab.Ext2.FirstFit

/-!
# Concurrent calls on one block bitmap

`ext2_allocate_in_bg` and `ext2_free_blocks` as concurrent calls on the bitmap of one group:
every scan, every bit that is set or cleared and every update of the count is one step of
the call it belongs to.
-/

namespace OsLab.Ext2
open Bitmap Ledger

/-- Where a call of `ext2_allocate_in_bg`, with the update that `ext2_new_blocks` makes behind it, or of
`ext2_free_blocks` stands. `turned` are the bits that the call itself has turned from clear to set. -/
inductive BgPc where
  | idle
  | findNextZeroBit (count : Nat)
  | setBit (count num firstFreeBit : Nat) (turned : List Nat)
  | newBlocks (count : Nat)
  | clearBit (bit count i freed : Nat)
  | freeBlocks (freed : Nat)
  deriving DecidableEq, Repr

/-- A call of `ext2_allocate_in_bg` that has returned: what was asked for, the result, the final
`*count` and the bits it turned. -/
structure Allocated where
  requested : Nat
  start : Int
  count : Nat
  turned : List Nat
  deriving DecidableEq, Repr

/-- The bitmap and the count of the group, the bits handed out and not yet passed to
`ext2_free_blocks`, and the calls in progress, one for each of `τ`. -/
structure BgState (τ : Type) where
  bitmap : Bits
  bgFreeBlocksCount : Nat
  held : List Nat
  allocated : List Allocated
  pc : τ → BgPc

variable {τ : Type} {n : Nat} {s : BgState τ}

namespace BgState
variable [DecidableEq τ]

def goto (t : τ) (p : BgPc) (s : BgState τ) : BgState τ := { s with pc := Function.update s.pc t p }

/-- `group_update_free_blocks` -/
def updateFreeBlocks (count : Int) (s : BgState τ) : BgState τ :=
  if count = 0 then s else { s with bgFreeBlocksCount := ((s.bgFreeBlocksCount + count) % 2 ^ 16).toNat }

def finish (t : τ) (count num firstFreeBit : Nat) (turned : List Nat) (s : BgState τ) : BgState τ :=
  if num = 0 then goto t .idle { s with allocated := ⟨count, -1, count, turned⟩ :: s.allocated }
  else
    let start := Int.bmod (firstFreeBit - num : Int) (2 ^ 32)
    let s := { s with allocated := ⟨count, start, num, turned⟩ :: s.allocated }
    if start < 0 then goto t .idle s
    else goto t (.newBlocks num) { s with held := List.range' start.toNat num ++ s.held }

/-- The next step of a call. `index` is what the scan finds, should it be one. -/
def advance (nblocks : Nat) (t : τ) (index : Nat) (s : BgState τ) : BgState τ :=
  match s.pc t with
  | .idle => s
  | .findNextZeroBit count =>
    if nblocks ≤ index then goto t .idle { s with allocated := ⟨count, -1, count, []⟩ :: s.allocated }
    else goto t (.setBit count 0 index []) s
  | .setBit count num bit turned =>
    if num < count ∧ bit < nblocks then
      if s.bitmap bit then
        if num = 0 then goto t (.setBit count num (bit + 1) turned) s else finish t count num bit turned s
      else
        goto t (.setBit count (num + 1) (bit + 1) (turned ++ [bit])) { s with bitmap := Function.update s.bitmap bit true }
    else finish t count num bit turned s
  | .newBlocks count => goto t .idle (s.updateFreeBlocks (-count))
  | .clearBit bit count i freed =>
    if i < count then
      goto t (.clearBit bit count (i + 1) (if s.bitmap (bit + i) then freed + 1 else freed))
        { s with bitmap := Function.update s.bitmap (bit + i) false }
    else goto t (.freeBlocks freed) s
  | .freeBlocks freed => goto t .idle (s.updateFreeBlocks freed)

end BgState

inductive BgEvent (τ : Type) where
  | allocate (t : τ) (count : Nat)
  | free (t : τ) (block count : Nat) (readable : Bool)
  | advance (t : τ) (index : Nat)

def acceptsFree (sb : SuperBlock) (group block count : Nat) (readable : Bool) : Bool :=
  ext2DataBlocksValid sb block (count % 2 ^ 32) && readable && ext2DataBlocksValidBg sb group block (count % 2 ^ 32)

/-- One step of some call on the bitmap of `group`. Only blocks that are held are freed, and once. -/
inductive BgStep [DecidableEq τ] (v : Volume) (group : Nat) : BgState τ → BgEvent τ → BgState τ → Prop
  | allocate (s : BgState τ) (t : τ) (count : Nat) (ready : s.pc t = .idle) (wanted : 1 ≤ count) :
      BgStep v group s (.allocate t count) (s.goto t (.findNextZeroBit count))
  | free (s : BgState τ) (t : τ) (block count : Nat) (readable : Bool) (ready : s.pc t = .idle)
      (here : groupOf v.toSuperBlock block = group)
      (owned : ∀ b, b ∈ List.range' (bitOf v.toSuperBlock block) count → b ∈ s.held) :
      BgStep v group s (.free t block count readable)
        (BgState.goto t
          (if acceptsFree v.toSuperBlock group block count readable then .clearBit (bitOf v.toSuperBlock block) count 0 0
          else .idle)
          { s with held := s.held.diff (List.range' (bitOf v.toSuperBlock block) count) })
  | advance (s : BgState τ) (t : τ) (index : Nat) (inside : index ≤ nblocks v.toSuperBlock group) :
      BgStep v group s (.advance t index) (s.advance (nblocks v.toSuperBlock group) t index)

/-! ### What a call owns and owes -/

@[simp] def BgPc.owns : BgPc → List Nat
  | .setBit _ _ _ turned => turned
  | .clearBit bit count i _ => List.range' (bit + i) (count - i)
  | _ => []

/-- By how much the count exceeds the number of clear bits on account of a call. -/
@[simp] def BgPc.debt : BgPc → Int
  | .setBit _ num _ _ => num
  | .newBlocks count => count
  | .clearBit _ _ _ freed => -freed
  | .freeBlocks freed => -freed
  | _ => 0

def BgPc.Tracks (nblocks : Nat) : BgPc → Prop
  | .setBit count num bit turned =>
      ∃ start, turned = List.range' start num ∧ (0 < num → start + num = bit) ∧ bit ≤ nblocks ∧ num ≤ count
  | .clearBit _ count i freed => freed = i ∧ i ≤ count
  | _ => True

def Allocated.Exact (nblocks : Nat) (a : Allocated) : Prop :=
  (a.start = -1 ∧ a.turned = []) ∨
    ∃ start : Nat, a.start = start ∧ a.turned = List.range' start a.count ∧ start + a.count ≤ nblocks ∧
      1 ≤ a.count ∧ a.count ≤ a.requested

def room (bits : Bits) (nblocks b : Nat) : Int := if bits b ∧ b < nblocks then 1 else 0

theorem room_update (bits : Bits) (n b k : Nat) (set : Bool) :
    room (Function.update bits k set) n b = if b = k then (if set ∧ k < n then 1 else 0) else room bits n b := by
  unfold room
  by_cases here : b = k
  · subst here
    simp
  · simp [here]

theorem room_clear {bits : Bits} {b : Nat} (clear : bits b = false) : room bits n b = 0 := by
  simp [room, clear]

theorem room_pos {bits : Bits} {b : Nat} (some : 0 < room bits n b) : bits b = true ∧ b < n := by
  unfold room at some
  split_ifs at some with both
  · exact both
  · cases some

theorem room_le (bits : Bits) (n b : Nat) : room bits n b ≤ 1 := by
  unfold room
  split_ifs <;> decide

variable [Fintype τ]

def owners (s : BgState τ) (b : Nat) : Int := s.held.count b + owed (fun p => (p.owns.count b : Int)) s.pc

structure BgInvariant (nblocks : Nat) (s : BgState τ) : Prop where
  once : ∀ b, owners s b ≤ room s.bitmap nblocks b
  counts : Balanced (2 ^ 16) BgPc.debt s.pc s.bgFreeBlocksCount (clearCount s.bitmap nblocks)
  small : s.bgFreeBlocksCount < 2 ^ 16
  tracks : ∀ t, (s.pc t).Tracks nblocks
  exact : ∀ a, a ∈ s.allocated → a.Exact nblocks

/-! ### Owners -/

theorem owns_le (s : BgState τ) (t : τ) (b : Nat) : s.held.count b + (s.pc t).owns.count b ≤ owners s b := by
  have part := le_owed s.pc (fun p => Int.natCast_nonneg (p.owns.count b)) t
  unfold owners
  omega

theorem BgInvariant.apart (inv : BgInvariant n s) :
    s.held.Nodup ∧ (∀ b, b ∈ s.held → s.bitmap b = true ∧ b < n) ∧ ∀ t b, b ∈ (s.pc t).owns → b ∉ s.held := by
  have count : ∀ b, (s.held.count b : Int) ≤ room s.bitmap n b := fun b => by
    have rest := owed_nonneg s.pc fun p => Int.natCast_nonneg (p.owns.count b)
    have bound := inv.once b
    unfold owners at bound
    omega
  refine ⟨List.nodup_iff_count_le_one.mpr fun b => ?_, fun b held => ?_, fun t b mine held => ?_⟩
  · have one := room_le s.bitmap n b
    have less := count b
    omega
  · have some := List.count_pos_iff.mpr held
    have less := count b
    exact room_pos (by omega)
  · have one := room_le s.bitmap n b
    have bound := inv.once b
    have both := owns_le s t b
    have some := List.count_pos_iff.mpr held
    have part := List.count_pos_iff.mpr mine
    omega

structure BgSettled (nblocks : Nat) (s : BgState τ) : Prop where
  idle : ∀ t, s.pc t = .idle
  nodup : s.held.Nodup
  bits : ∀ b, b ∈ s.held → s.bitmap b = true ∧ b < nblocks
  exact : s.bgFreeBlocksCount = clearCount s.bitmap nblocks
  fresh : s.allocated = []

theorem BgSettled.invariant (settled : BgSettled n s) (few : n ≤ 2 ^ 15) : BgInvariant n s := by
  have most := clearCount_le s.bitmap n
  have count := settled.exact
  constructor
  · intro b
    have none : owed (fun p => (p.owns.count b : Int)) s.pc = 0 := owed_quiet fun t => by rw [settled.idle t]; rfl
    unfold owners
    rw [none]
    by_cases held : b ∈ s.held
    · rw [List.count_eq_one_of_mem settled.nodup held, room, if_pos (settled.bits b held)]
      decide
    · rw [List.count_eq_zero_of_not_mem held, room]
      split_ifs <;> decide
  · exact Balanced.of_quiet (by rw [count]) fun t => by rw [settled.idle t]; rfl
  · omega
  · intro t
    rw [settled.idle t]
    trivial
  · rw [settled.fresh]
    exact fun a member => absurd member (List.not_mem_nil)

end OsLab.Ext2
