import OsLab.Ext2.Dir

/-!
# The entries of a directory

What a directory holds, as the list of the entries that lie end to end from offset 0 to
`i_size`, and when it is well formed.
-/

namespace OsLab.Ext2
open Bytes Records

structure Slot where
  off : Nat
  recLen : Nat
  inode : Nat
  name : List UInt8
  deriving DecidableEq, Repr

def slotAt (data : Image) (de : Nat) : Slot :=
  ⟨de, deRecLen data de, deInode data de, deName data de (deNameLen data de)⟩

/-- The entries from `de` to `stop`. -/
def slotsFrom (data : Image) (stop : Nat) : Nat → Nat → List Slot
  | 0, _ => []
  | fuel + 1, de =>
    if de < stop then slotAt data de :: slotsFrom data stop fuel (ext2NextEntry data de) else []

def entries (dir : Dir) : List Slot := slotsFrom dir.data dir.iSize dir.iSize 0

abbrev Tiled : Nat → List Slot → Nat → Prop := Laid Slot.off Slot.recLen

/-- What `ext2_check_page` asks of an entry. -/
structure SlotOk (v : DirVolume) (s : Slot) : Prop where
  align : s.recLen % 4 = 0
  short : ext2DirRecLen 1 ≤ s.recLen
  room : ext2DirRecLen s.name.length ≤ s.recLen
  chunk : s.off / ext2ChunkSize v = (s.off + s.recLen - 1) / ext2ChunkSize v
  inumber : s.inode ≤ v.inodesCount

/-- The bytes of a directory tiled by good entries, within the blocks a directory can have. -/
structure WellFormed (v : DirVolume) (dir : Dir) : Prop where
  size : ext2ChunkSize v ∣ dir.iSize
  blocks : dir.iSize ≤ ndirBlocks * ext2ChunkSize v
  tiled : Tiled 0 (entries dir) dir.iSize
  slots : ∀ s, s ∈ entries dir → SlotOk v s

/-! ### Record lengths and chunks -/

variable {v : DirVolume} {dir : Dir} {data data' : Image} {s : Slot} {slots : List Slot} {o e : Nat}

theorem ext2DirRecLen_eq {n : Nat} (small : n < 2 ^ 31) : ext2DirRecLen n = (n + 11) / 4 * 4 :=
  @and_complement (n + 11) 2 (by decide) (by omega)

theorem ext2DirRecLen_bounds {n : Nat} (small : n < 2 ^ 31) :
    n + 8 ≤ ext2DirRecLen n ∧ ext2DirRecLen n ≤ n + 11 ∧ ext2DirRecLen n % 4 = 0 := by
  rw [ext2DirRecLen_eq small]
  omega

theorem ext2DirRecLen_one : ext2DirRecLen 1 = 12 := ext2DirRecLen_eq (by decide)

theorem chunkSize_eq (v : DirVolume) : ext2ChunkSize v = 2 ^ v.blocksizeBits := rfl

theorem chunkSize_cases (v : DirVolume) :
    ext2ChunkSize v = 1024 ∨ ext2ChunkSize v = 2048 ∨ ext2ChunkSize v = 4096 := by
  obtain ⟨low, high⟩ := v.sizes
  rw [chunkSize_eq]
  have bits : v.blocksizeBits = 10 ∨ v.blocksizeBits = 11 ∨ v.blocksizeBits = 12 := by omega
  rcases bits with bits | bits | bits <;> rw [bits] <;> decide

theorem chunkSize_dvd_pageSize (v : DirVolume) : ext2ChunkSize v ∣ pageSize := by
  rcases chunkSize_cases v with size | size | size <;> rw [size] <;> decide

theorem chunkSize_dvd_page (v : DirVolume) (n : Nat) : ext2ChunkSize v ∣ n <<< pageShift := by
  rw [Nat.shiftLeft_eq]
  exact (chunkSize_dvd_pageSize v).trans (Dvd.intro_left n rfl)

theorem SlotOk.pos (ok : SlotOk v s) : 12 ≤ s.recLen := ext2DirRecLen_one ▸ ok.short

theorem SlotOk.apart (ok : SlotOk v s) {m : Nat} (boundary : ext2ChunkSize v ∣ m) : m ≤ s.off ∨ s.off + s.recLen ≤ m := by
  obtain ⟨k, rfl⟩ := boundary
  have pos := ok.pos
  have chunk := ok.chunk
  have size : 0 < ext2ChunkSize v := by rcases chunkSize_cases v with size | size | size <;> omega
  by_contra crosses
  have below : s.off / ext2ChunkSize v < k := by
    rw [Nat.div_lt_iff_lt_mul size, Nat.mul_comm]
    omega
  have above : k ≤ (s.off + s.recLen - 1) / ext2ChunkSize v := by
    rw [Nat.le_div_iff_mul_le size, Nat.mul_comm]
    omega
  omega

/-! ### Entries and bytes -/

theorem deNameLen_lt (data : Image) (de : Nat) : deNameLen data de < 256 := by
  have bound := @load_lt data (de + 6) 1
  simpa only [deNameLen, pow_one] using bound

theorem slotAt_off (data : Image) (de : Nat) : (slotAt data de).off = de := rfl

theorem slotAt_name_length (data : Image) (de : Nat) : (slotAt data de).name.length = deNameLen data de := read_length

/-- An entry depends on its header and its name only. -/
theorem slotAt_congr {de : Nat} (same : ∀ k, de ≤ k → k < de + 8 + deNameLen data de → data k = data' k) :
    slotAt data' de = slotAt data de := by
  have inode : deInode data de = deInode data' de := load_congr fun k _ _ => same k (by omega) (by omega)
  have recLen : deRecLen data de = deRecLen data' de := load_congr fun k _ _ => same k (by omega) (by omega)
  have nameLen : deNameLen data de = deNameLen data' de := load_congr fun k _ _ => same k (by omega) (by omega)
  have name : deName data de (deNameLen data de) = deName data' de (deNameLen data de) :=
    read_congr fun k _ _ => same k (by omega) (by omega)
  rw [slotAt, slotAt, ← inode, ← recLen, ← nameLen, ← name]

/-- Every slot of the list shows in the bytes. -/
def Shown (data : Image) (slots : List Slot) : Prop := ∀ s, s ∈ slots → slotAt data s.off = s

theorem slotsFrom_shown (data : Image) (stop fuel de : Nat) : Shown data (slotsFrom data stop fuel de) := by
  induction fuel generalizing de with
  | zero => exact fun s member => absurd member (by simp [slotsFrom])
  | succ fuel ih =>
    intro s member
    rw [slotsFrom] at member
    split_ifs at member with inside
    · rcases List.mem_cons.mp member with rfl | later
      · rfl
      · exact ih _ s later
    · cases member

theorem entries_shown (dir : Dir) : Shown dir.data (entries dir) := slotsFrom_shown _ _ _ _

/-- A tiling that shows in the bytes is the one that `entries` reads. -/
theorem slotsFrom_eq {fuel : Nat} (tiled : Tiled o slots e) (shown : Shown data slots) (enough : slots.length ≤ fuel) :
    slotsFrom data e fuel o = slots := by
  induction slots generalizing o fuel with
  | nil =>
    have same : o = e := tiled
    cases fuel with
    | zero => rfl
    | succ fuel => rw [slotsFrom, if_neg (by omega)]
  | cons s slots ih =>
    obtain ⟨rfl, pos, rest⟩ := tiled
    have here := shown s List.mem_cons_self
    have bound := rest.le
    obtain ⟨left, rfl⟩ : ∃ left, fuel = left + 1 := ⟨fuel - 1, by simp only [List.length_cons] at enough; omega⟩
    have next : ext2NextEntry data s.off = s.off + s.recLen := congrArg (s.off + Slot.recLen ·) here
    rw [slotsFrom, if_pos (by omega), here, next,
      ih rest (fun s' member => shown s' (List.mem_cons_of_mem _ member)) (by simp only [List.length_cons] at enough; omega)]

theorem entries_eq (tiled : Tiled 0 slots dir.iSize) (shown : Shown dir.data slots) : entries dir = slots := by
  have bound := tiled.length
  exact slotsFrom_eq tiled shown (by omega)

theorem wellFormed_of_tiled (size : ext2ChunkSize v ∣ dir.iSize) (blocks : dir.iSize ≤ ndirBlocks * ext2ChunkSize v)
    (tiled : Tiled 0 slots dir.iSize) (shown : Shown dir.data slots) (ok : ∀ s, s ∈ slots → SlotOk v s) :
    WellFormed v dir ∧ entries dir = slots := by
  have same := entries_eq tiled shown
  exact ⟨⟨size, blocks, same ▸ tiled, same ▸ ok⟩, same⟩

/-! ### Pages -/

theorem WellFormed.small (wf : WellFormed v dir) : dir.iSize < 2 ^ 31 := by
  have blocks := wf.blocks
  unfold ndirBlocks at blocks
  rcases chunkSize_cases v with size | size | size <;> omega

end OsLab.Ext2
