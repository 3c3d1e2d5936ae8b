import OsLab.Foundation.Runs
import OsLab.Ext2.DescriptorTable
import OsLab.Ext2.MountResources

/-!
# Custody of a mount

A mount that fails holds nothing, wherever it fails, and an unmount gives back what the mount holds.
-/

namespace OsLab.Ext2
open Bytes Traced Mounting

/-! ### Held resources -/

section
variable {α β : Type} {pre pre' : Multiset MountResource} {post : β → Multiset MountResource}

theorem takeResource_bind {r : MountResource} {f : PUnit → Mounting β} (rest : Leaves (r ::ₘ pre) (f ⟨⟩) post) :
    Leaves pre (Mounting.take r >>= f) post :=
  Leaves.bind Leaves.get fun _ => rest

theorem dropResource_bind {r : MountResource} {f : PUnit → Mounting β} (rest : Leaves pre (f ⟨⟩) post) :
    Leaves (r ::ₘ pre) (Mounting.drop r >>= f) post :=
  Leaves.bind (Leaves.put rfl) fun _ => rest

theorem dropAll_leaves (rs : List MountResource) : Leaves (.ofList rs + pre) (dropAll rs) fun _ => pre := by
  induction rs with
  | nil => exact Leaves.pure (Multiset.zero_add pre)
  | cons r rest ih =>
    unfold dropAll
    rw [← Multiset.cons_coe, Multiset.cons_add]
    exact dropResource_bind ih

/-- What a call holds: nothing once it has failed. -/
def heldAfter (held : α → Multiset MountResource) : Except Int α → Multiset MountResource
  | .error _ => 0
  | .ok a => held a

/-- The memory of `sbi` and of its lock. -/
def infoHeld : Multiset MountResource := .blockgroupLock ::ₘ .sbInfo ::ₘ 0

variable {held : α → Multiset MountResource} {ret : Int} {bh : MountResource}

theorem failedSbi_leaves : Leaves infoHeld (failedSbi ret) (heldAfter held) :=
  dropResource_bind (dropResource_bind (Leaves.pure rfl))

theorem failedMount_leaves : Leaves (bh ::ₘ infoHeld) (failedMount bh ret) (heldAfter held) :=
  dropResource_bind failedSbi_leaves

theorem failedMountGroupDesc_leaves :
    Leaves (.groupDesc ::ₘ bh ::ₘ infoHeld) (failedMountGroupDesc bh ret) (heldAfter held) :=
  dropResource_bind failedMount_leaves

theorem failedMount2_leaves {groupDesc : List MountResource} :
    Leaves (.ofList groupDesc + .groupDesc ::ₘ bh ::ₘ infoHeld) (failedMount2 bh groupDesc ret) (heldAfter held) :=
  Leaves.bind (dropAll_leaves groupDesc) fun _ => failedMountGroupDesc_leaves

theorem failedMount3_leaves {groupDesc counters : List MountResource} :
    Leaves (.ofList counters + (.ofList groupDesc + .groupDesc ::ₘ bh ::ₘ infoHeld)) (failedMount3 bh groupDesc counters ret)
      (heldAfter held) :=
  Leaves.bind (dropAll_leaves counters) fun _ => failedMount2_leaves

end

/-! ### The ways through `ext2_fill_super` -/

section
variable {dev : Device} {options : List MountToken} {blocksize es : Nat} {bh : MountResource}

theorem rereadSuper_leaves :
    Leaves (bh ::ₘ infoHeld) (Mounting.rereadSuper dev blocksize es bh) (heldAfter fun found => found.2 ::ₘ infoHeld) := by
  unfold Mounting.rereadSuper
  simp only
  split_ifs
  · exact Leaves.pure rfl
  · exact dropResource_bind failedSbi_leaves
  · exact dropResource_bind failedSbi_leaves
  · exact dropResource_bind (takeResource_bind failedMount_leaves)
  · exact dropResource_bind (takeResource_bind (Leaves.pure rfl))

theorem checkSuper_leaves :
    Leaves (bh ::ₘ infoHeld) (checkSuper dev options blocksize es bh) (heldAfter fun found => found.1.2 ::ₘ infoHeld) := by
  unfold checkSuper
  cases readOptions dev es options with
  | error err =>
    split_ifs
    · exact failedMount_leaves
    · exact failedMount_leaves
    · exact failedMount_leaves
  | ok opt =>
    split_ifs
    · exact failedMount_leaves
    · exact failedMount_leaves
    · refine Leaves.bind rereadSuper_leaves fun found => ?_
      cases found with
      | error err => exact Leaves.pure rfl
      | ok found => exact Leaves.pure rfl

theorem mountFindSuper_leaves :
    Leaves 0 (Mounting.findSuper dev options) (heldAfter fun found => found.1.2 ::ₘ infoHeld) := by
  unfold Mounting.findSuper
  simp only
  split_ifs
  · exact Leaves.pure rfl
  · exact takeResource_bind (dropResource_bind (Leaves.pure rfl))
  · exact takeResource_bind (takeResource_bind failedSbi_leaves)
  · exact takeResource_bind (takeResource_bind failedSbi_leaves)
  · exact takeResource_bind (takeResource_bind (takeResource_bind checkSuper_leaves))

theorem readBlocks_leaves (blocks : List Nat) (done : List MountResource) :
    Leaves (.ofList done + .groupDesc ::ₘ bh ::ₘ infoHeld) (readBlocks dev blocksize bh blocks done)
      (heldAfter fun groupDesc => .ofList groupDesc + .groupDesc ::ₘ bh ::ₘ infoHeld) := by
  induction blocks generalizing done with
  | nil => exact Leaves.pure rfl
  | cons block rest ih =>
    unfold readBlocks
    split_ifs
    · exact Leaves.bind (dropAll_leaves done) fun _ => failedMountGroupDesc_leaves
    · apply takeResource_bind
      have more := ih (done ++ [.buffer blocksize block])
      rwa [← Multiset.coe_add, Multiset.coe_singleton, add_assoc, Multiset.singleton_add, Multiset.add_cons] at more

theorem initCounters_leaves {counterInit : Nat → Bool} {groupDesc : List MountResource} (left : Nat) (done : List MountResource) :
    Leaves (.ofList done + (.ofList groupDesc + .groupDesc ::ₘ bh ::ₘ infoHeld)) (initCounters counterInit bh groupDesc left done)
      (heldAfter fun counters => .ofList counters + (.ofList groupDesc + .groupDesc ::ₘ bh ::ₘ infoHeld)) := by
  induction left generalizing done with
  | zero => exact Leaves.pure rfl
  | succ left ih =>
    unfold initCounters
    split_ifs
    · exact failedMount3_leaves
    · apply takeResource_bind
      have more := ih (done ++ [.counter done.length])
      rwa [← Multiset.coe_add, Multiset.coe_singleton, add_assoc, Multiset.singleton_add, Multiset.add_cons] at more

theorem mountReadDescriptors_leaves {counterInit : Nat → Bool} {sbi : SbInfo} :
    Leaves (bh ::ₘ infoHeld) (Mounting.readDescriptors counterInit sbi bh)
      (heldAfter fun loaded => .ofList loaded.2.2 + (.ofList loaded.2.1 + .groupDesc ::ₘ bh ::ₘ infoHeld)) := by
  unfold Mounting.readDescriptors
  split_ifs
  · exact failedMount_leaves
  · apply takeResource_bind
    have blocks := @readBlocks_leaves sbi.dev sbi.blocksize bh
      ((List.range sbi.gdbCount).map (sbi.descriptorLoc sbi.logicSbBlock)) []
    rw [Multiset.coe_nil, zero_add] at blocks
    refine Leaves.bind blocks fun got => ?_
    cases got with
    | error err => exact Leaves.pure rfl
    | ok groupDesc =>
      simp only
      split_ifs
      · exact failedMount2_leaves
      · have counted := @initCounters_leaves bh counterInit groupDesc 3 []
        rw [Multiset.coe_nil, zero_add] at counted
        refine Leaves.bind counted fun counters => ?_
        cases counters with
        | error err => exact Leaves.pure rfl
        | ok counters => exact Leaves.pure rfl

theorem readRoot_leaves {slab : Image} {sbi : SbInfo} {groupDesc counters : List MountResource} :
    Leaves (.ofList counters + (.ofList groupDesc + .groupDesc ::ₘ bh ::ₘ infoHeld)) (Mounting.readRoot slab sbi bh groupDesc counters)
      (heldAfter fun _ => .root ::ₘ (.ofList counters + (.ofList groupDesc + .groupDesc ::ₘ bh ::ₘ infoHeld))) := by
  unfold Mounting.readRoot
  cases ext2Iget sbi.inodeTable (sbi.dev.readable sbi.blocksize) slab sbi.dev.bytes rootIno with
  | failed err => exact failedMount3_leaves
  | undefined => exact Leaves.never
  | loaded root =>
    apply takeResource_bind
    split_ifs
    · exact dropResource_bind failedMount3_leaves
    · exact dropResource_bind failedMount3_leaves
    · exact Leaves.pure rfl

end

/-! ### Values -/

section
variable {α β : Type} {dev : Device} {options : List MountToken} {blocksize es : Nat} {bh : MountResource} {ret : Int}
  {counterInit : Nat → Bool}

@[simp] theorem value_takeResource (r : MountResource) (f : PUnit → Mounting β) :
    (Mounting.take r >>= f).run.value = (f ⟨⟩).run.value := value_optionT_bind _ f

@[simp] theorem value_dropResource (r : MountResource) (f : PUnit → Mounting β) :
    (Mounting.drop r >>= f).run.value = (f ⟨⟩).run.value := value_optionT_bind _ f

@[simp] theorem value_dropAll (rs : List MountResource) (f : PUnit → Mounting β) :
    (dropAll rs >>= f).run.value = (f ⟨⟩).run.value := by
  have dropped : (dropAll rs).run.value = some ⟨⟩ := by
    induction rs with
    | nil => rfl
    | cons r rest ih => exact (value_dropResource r _).trans ih
  rw [value_optionT_bind, dropped]
  rfl

@[simp] theorem value_failedSbi : (failedSbi ret : Mounting (Except Int α)).run.value = some (.error ret) := rfl

@[simp] theorem value_failedMount : (failedMount bh ret : Mounting (Except Int α)).run.value = some (.error ret) := rfl

@[simp] theorem value_failedMountGroupDesc :
    (failedMountGroupDesc bh ret : Mounting (Except Int α)).run.value = some (.error ret) := rfl

@[simp] theorem value_failedMount2 {groupDesc : List MountResource} :
    (failedMount2 bh groupDesc ret : Mounting (Except Int α)).run.value = some (.error ret) := value_dropAll ..

@[simp] theorem value_failedMount3 {groupDesc counters : List MountResource} :
    (failedMount3 bh groupDesc counters ret : Mounting (Except Int α)).run.value = some (.error ret) :=
  (value_dropAll ..).trans value_failedMount2

/-- The buffer of the super block. -/
def superBuffer (blocksize : Nat) : MountResource := .buffer blocksize (sbBlock * blockSize / blocksize)

theorem mountReread_value :
    (Mounting.rereadSuper dev blocksize es (superBuffer blocksize)).run.value =
      some ((rereadSuper dev blocksize es).map fun found => (found, superBuffer found.1)) := by
  unfold Mounting.rereadSuper rereadSuper
  simp only
  by_cases same : blocksize = blockSize <<< (sLogBlockSize.get dev.bytes es % 32) % 2 ^ 32
  · rw [if_pos same, if_pos same]
    rfl
  rw [if_neg same, if_neg same]
  generalize blockSize <<< (sLogBlockSize.get dev.bytes es % 32) % 2 ^ 32 = wanted
  rw [value_dropResource]
  cases sbSetBlocksize dev wanted with
  | false => rfl
  | true =>
    cases dev.readable wanted (sbBlock * blockSize / wanted) with
    | false => rfl
    | true =>
      cases sMagic.get dev.bytes (sbBlock * blockSize / wanted * wanted + sbBlock * blockSize % wanted) == superMagic with
      | false => rfl
      | true => rfl

theorem checkSuper_value :
    (checkSuper dev options blocksize es (superBuffer blocksize)).run.value = some (((do
      ensure (sMagic.get dev.bytes es == superMagic) (-einval)
      let opt ← readOptions dev es options
      ensure (sFeatureRoCompat.get dev.bytes es == 0 && sFeatureCompat.get dev.bytes es == 0 &&
        sFeatureIncompat.get dev.bytes es == 0) (-einval)
      let found ← rereadSuper dev blocksize es
      .ok (found, opt)) : Except Int ((Nat × Nat) × MountOpt)).map fun found => ((found.1, superBuffer found.1.1), found.2)) := by
  unfold checkSuper
  cases sMagic.get dev.bytes es == superMagic with
  | false => rfl
  | true =>
    cases readOptions dev es options with
    | error err => rfl
    | ok opt =>
      cases sFeatureRoCompat.get dev.bytes es == 0 && sFeatureCompat.get dev.bytes es == 0 &&
        sFeatureIncompat.get dev.bytes es == 0 with
      | false => rfl
      | true =>
        simp only [Bool.not_true, Bool.false_eq_true, if_false]
        rw [value_optionT_bind, mountReread_value]
        cases rereadSuper dev blocksize es with
        | error err => rfl
        | ok found => rfl

theorem mountFind_value :
    (Mounting.findSuper dev options).run.value =
      some ((findSuper dev options).map fun found => ((found.1, superBuffer found.1.1), found.2)) := by
  unfold Mounting.findSuper findSuper
  cases dev.allocates .sbInfo with
  | false => rfl
  | true =>
    cases dev.allocates .blockgroupLock with
    | false => rfl
    | true =>
      by_cases none : sbMinBlocksize dev blockSize = 0
      · simp only [none]
        rfl
      · simp only [Bool.not_true, Bool.false_eq_true, if_false, value_takeResource, none]
        cases dev.readable (sbMinBlocksize dev blockSize) (sbBlock * blockSize / sbMinBlocksize dev blockSize) with
        | false =>
          simp [ensure, none]
          rfl
        | true =>
          rw [if_neg (by decide), value_takeResource, show MountResource.buffer (sbMinBlocksize dev blockSize)
            (sbBlock * blockSize / sbMinBlocksize dev blockSize) = superBuffer (sbMinBlocksize dev blockSize) from rfl,
            checkSuper_value]
          simp [ensure, none]
          rfl

theorem readBlocks_value (blocks : List Nat) (done : List MountResource) :
    (readBlocks dev blocksize bh blocks done).run.value = some
      (if blocks.all (dev.readable blocksize) then .ok (done ++ blocks.map (.buffer blocksize)) else .error (-einval)) := by
  induction blocks generalizing done with
  | nil =>
    rw [List.map_nil, List.append_nil]
    rfl
  | cons block rest ih =>
    unfold readBlocks
    rw [List.all_cons]
    cases dev.readable blocksize block with
    | false => exact value_dropAll ..
    | true =>
      rw [if_neg (by decide), value_takeResource, ih, Bool.true_and, List.map_cons, List.append_assoc]
      rfl

def allCounters : List MountResource := [.counter 0, .counter 1, .counter 2]

theorem initCounters_value {groupDesc : List MountResource} :
    (initCounters counterInit bh groupDesc 3 []).run.value = some
      (if counterInit 0 && counterInit 1 && counterInit 2 then .ok allCounters else .error (-enomem)) := by
  unfold initCounters initCounters initCounters
  simp only [List.length_nil, List.nil_append, List.length_singleton, List.length_append]
  cases counterInit 0 with
  | false => exact value_failedMount3
  | true =>
    rw [if_neg (by decide), value_takeResource]
    cases counterInit 1 with
    | false => exact value_failedMount3
    | true =>
      rw [if_neg (by decide), value_takeResource]
      cases counterInit 2 with
      | false => exact value_failedMount3
      | true => rfl

theorem readDescriptors_value {sbi : SbInfo}
    (counters : sbi.dev.allocates .counters = (counterInit 0 && counterInit 1 && counterInit 2)) :
    (Mounting.readDescriptors counterInit sbi bh).run.value =
      some ((readDescriptors sbi).map fun sbi => (sbi, groupDesc sbi, allCounters)) := by
  unfold Mounting.readDescriptors readDescriptors
  cases sbi.dev.allocates (.groupDesc sbi.gdbCount) with
  | false => rfl
  | true =>
    rw [if_neg (by decide), value_takeResource]
    simp only
    rw [value_optionT_bind, readBlocks_value]
    cases ((List.range sbi.gdbCount).map (sbi.descriptorLoc sbi.logicSbBlock)).all (sbi.dev.readable sbi.blocksize) with
    | false => rfl
    | true =>
      simp only [if_true, Option.bind_some, List.nil_append]
      set blocks := (List.range sbi.gdbCount).map (sbi.descriptorLoc sbi.logicSbBlock)
      generalize checked : ({ sbi with groupDesc := blocks } : SbInfo) = loaded
      have buffers : blocks.map (.buffer sbi.blocksize) = groupDesc loaded := by
        subst checked
        rfl
      rw [buffers]
      cases loaded.checkDescriptors with
      | false =>
        simp [ensure]
        rfl
      | true =>
        rw [if_neg (by decide), value_optionT_bind, initCounters_value]
        cases all : counterInit 0 && counterInit 1 && counterInit 2 with
        | false =>
          simp [ensure, counters, all]
          rfl
        | true =>
          simp [ensure, counters, all]
          rfl

theorem readRoot_value {slab : Image} {sbi : SbInfo} {groupDesc counters : List MountResource} :
    (Mounting.readRoot slab sbi bh groupDesc counters).run.value = readRoot slab sbi := by
  unfold Mounting.readRoot readRoot
  cases ext2Iget sbi.inodeTable (sbi.dev.readable sbi.blocksize) slab sbi.dev.bytes rootIno with
  | failed err => exact value_failedMount3
  | undefined => rfl
  | loaded root =>
    simp only [value_takeResource, value_optionT_ite, value_dropResource, value_failedMount3]
    split_ifs with corrupt missing
    · rfl
    · rw [Bool.not_eq_true'] at missing
      rw [missing]
      rfl
    · rw [Bool.not_eq_true', Bool.not_eq_false] at missing
      rw [missing]
      rfl

theorem readSizes_dev {opt : MountOpt} {sbi : SbInfo} (sizes : readSizes dev blocksize es opt = .ok sbi) : sbi.dev = dev := by
  unfold readSizes at sizes
  obtain ⟨-, sizes⟩ := ensure_bind_ok sizes
  obtain ⟨-, sizes⟩ := ensure_bind_ok sizes
  obtain ⟨-, sizes⟩ := ensure_bind_ok sizes
  obtain ⟨-, sizes⟩ := ensure_bind_ok sizes
  obtain ⟨-, sizes⟩ := ensure_bind_ok sizes
  obtain rfl := Except.ok.inj sizes
  rfl

/-- Without the resources it is the function that the other results are about. -/
theorem mountFillSuper_value {slab : Image}
    (counters : dev.allocates .counters = (counterInit 0 && counterInit 1 && counterInit 2)) :
    (Mounting.ext2FillSuper counterInit dev options slab).run.value = ext2FillSuper dev options slab := by
  unfold Mounting.ext2FillSuper ext2FillSuper
  rw [value_optionT_bind, mountFind_value]
  cases findSuper dev options with
  | error err => rfl
  | ok found =>
    obtain ⟨⟨blocksize, es⟩, opt⟩ := found
    simp only [Except.map, Option.bind_some]
    cases sizes : readSizes dev blocksize es opt with
    | error err => rfl
    | ok sbi =>
      have same : sbi.dev = dev := readSizes_dev sizes
      simp only
      rw [value_optionT_bind, readDescriptors_value (same ▸ counters),
        show (Except.ok sbi >>= readDescriptors) = readDescriptors sbi from rfl]
      cases readDescriptors sbi with
      | error err => rfl
      | ok loaded => exact readRoot_value

end

/-! ### Mounting and unmounting -/

/-- What a mounted file system holds. -/
def mountHeld (sbi : SbInfo) : Multiset MountResource :=
  .root ::ₘ (.ofList allCounters + (.ofList (groupDesc sbi) + .groupDesc ::ₘ sbh sbi ::ₘ infoHeld))

theorem mapped_ok {α β : Type} {x : Except Int α} {f : α → β} {b : β} (done : Except.ok b = x.map f) :
    ∃ a, x = .ok a ∧ b = f a := by
  cases x with
  | error err => cases done
  | ok a => exact ⟨a, rfl, Except.ok.inj done⟩

/-- A mount that fails has given back all it took, at whatever point it fails. -/
theorem fillSuper_leaves {counterInit : Nat → Bool} {dev : Device} {options : List MountToken} {slab : Image}
    (counters : dev.allocates .counters = (counterInit 0 && counterInit 1 && counterInit 2)) :
    Leaves 0 (Mounting.ext2FillSuper counterInit dev options slab) (heldAfter mountHeld) := by
  unfold Mounting.ext2FillSuper
  refine Leaves.bind_reached mountFindSuper_leaves fun found reached => ?_
  rw [mountFind_value] at reached
  cases found with
  | error err => exact Leaves.pure rfl
  | ok found =>
    obtain ⟨⟨⟨blocksize, es⟩, bh⟩, opt⟩ := found
    obtain ⟨plain, -, same⟩ := mapped_ok (Option.some.inj reached).symm
    obtain rfl : superBuffer blocksize = bh := by
      have sizes := congrArg (fun found => found.1.1.1) same
      have buffers := congrArg (fun found => found.1.2) same
      simp only at sizes buffers
      rw [buffers, sizes]
    simp only
    cases sizes : readSizes dev blocksize es opt with
    | error err => exact failedMount_leaves
    | ok sbi =>
      obtain ⟨block, logic, -⟩ := readSizes_ok sizes
      have device : sbi.dev = dev := readSizes_dev sizes
      refine Leaves.bind_reached mountReadDescriptors_leaves fun read reached => ?_
      rw [readDescriptors_value (device ▸ counters)] at reached
      cases read with
      | error err => exact Leaves.pure rfl
      | ok read =>
        obtain ⟨loaded, buffers, counted⟩ := read
        obtain ⟨plain, descs, same⟩ := mapped_ok (Option.some.inj reached).symm
        obtain ⟨rfl, rest⟩ := Prod.mk.inj same
        obtain ⟨rfl, rfl⟩ := Prod.mk.inj rest
        have super : superBuffer blocksize = sbh loaded := by
          rw [readDescriptors_ok descs, sbh, block, logic]
          rfl
        simp only
        rw [super]
        intro outcome done
        have custody := readRoot_leaves outcome done
        rw [readRoot_value] at done
        cases outcome with
        | error err => exact custody
        | ok mounted =>
          obtain rfl := readRoot_ok done
          exact custody

/-- An unmount gives back all that the mount holds. -/
theorem killBlockSuper_leaves (sbi : SbInfo) : Leaves (mountHeld sbi) (killBlockSuper sbi) fun _ => 0 := by
  have order : mountHeld sbi = .root ::ₘ (.ofList (groupDesc sbi) +
      .groupDesc ::ₘ .counter 0 ::ₘ .counter 1 ::ₘ .counter 2 ::ₘ sbh sbi ::ₘ infoHeld) := by
    unfold mountHeld
    rw [add_left_comm]
    congr 2
    exact Multiset.add_cons ..
  rw [order]
  exact dropResource_bind (Leaves.bind (dropAll_leaves _) fun _ => dropResource_bind (dropResource_bind (dropResource_bind
    (dropResource_bind (dropResource_bind (dropResource_bind (Leaves.put rfl)))))))

theorem value_killBlockSuper (sbi : SbInfo) : (killBlockSuper sbi).run.value = some ⟨⟩ := value_dropAll ..

/-! ### The module -/

/-- The module holds its file system type and the cache of inodes, and any number of volumes is mounted. -/
inductive ModuleState where
  | unloaded
  | loaded (mounts : List SbInfo)

def ModuleState.held : ModuleState → Multiset MountResource
  | unloaded => 0
  | loaded mounts => (mounts.map mountHeld).sum + .fileSystemType ::ₘ .inodeCache ::ₘ 0

/-- The steps with what they take and give back. The module is not unloaded while a volume is mounted. -/
inductive ModuleStep : ModuleState → List (RefEvent MountResource) → ModuleState → Prop
  | init (cache : Bool) (register : Int) (succeeds : (initExt2Fs cache register).run.value = some 0) :
    ModuleStep .unloaded (initExt2Fs cache register).run.events (.loaded [])
  | initFails (cache : Bool) (register ret : Int) (fails : (initExt2Fs cache register).run.value = some ret) (error : ret ≠ 0) :
    ModuleStep .unloaded (initExt2Fs cache register).run.events .unloaded
  | mount (mounts : List SbInfo) (counterInit : Nat → Bool) (dev : Device) (options : List MountToken) (slab : Image)
    (counters : dev.allocates .counters = (counterInit 0 && counterInit 1 && counterInit 2)) (sbi : SbInfo)
    (mounted : ext2FillSuper dev options slab = some (.ok sbi)) :
    ModuleStep (.loaded mounts) (Mounting.ext2FillSuper counterInit dev options slab).run.events (.loaded (sbi :: mounts))
  | mountFails (mounts : List SbInfo) (counterInit : Nat → Bool) (dev : Device) (options : List MountToken) (slab : Image)
    (counters : dev.allocates .counters = (counterInit 0 && counterInit 1 && counterInit 2)) (err : Int)
    (fails : ext2FillSuper dev options slab = some (.error err)) :
    ModuleStep (.loaded mounts) (Mounting.ext2FillSuper counterInit dev options slab).run.events (.loaded mounts)
  | unmount (before after : List SbInfo) (sbi : SbInfo) :
    ModuleStep (.loaded (before ++ sbi :: after)) (killBlockSuper sbi).run.events (.loaded (before ++ after))
  | exit : ModuleStep (.loaded []) exitExt2Fs.run.events .unloaded

theorem initExt2Fs_leaves (cache : Bool) (register : Int) : Leaves 0 (initExt2Fs cache register)
    fun ret => if ret = 0 then .fileSystemType ::ₘ .inodeCache ::ₘ 0 else 0 := by
  unfold initExt2Fs initInodecache
  cases cache with
  | false => exact Leaves.pure rfl
  | true =>
    refine @Leaves.bind _ _ _ _ (fun ret => if ret = 0 then .inodeCache ::ₘ 0 else 0) _ _ _
      (takeResource_bind (Leaves.pure rfl)) fun err => ?_
    by_cases failed : err = 0
    · rw [if_neg (not_not.mpr failed), if_pos failed]
      by_cases registered : register = 0
      · rw [if_neg (not_not.mpr registered)]
        exact takeResource_bind (Leaves.pure rfl)
      · rw [if_pos registered]
        exact dropResource_bind (Leaves.pure (if_neg registered).symm)
    · rw [if_pos failed, if_neg failed]
      exact Leaves.pure (if_neg failed).symm

theorem moduleStep_custody {s t : ModuleState} {es : List (RefEvent MountResource)} (step : ModuleStep s es t) :
    Custody s.held es t.held := by
  cases step with
  | init cache register succeeds => exact initExt2Fs_leaves cache register 0 succeeds
  | initFails cache register ret fails error =>
    have custody := initExt2Fs_leaves cache register ret fails
    simp only at custody
    rwa [if_neg error] at custody
  | mount mounts counterInit dev options slab counters sbi mounted =>
    have custody := fillSuper_leaves counters (.ok sbi) ((mountFillSuper_value counters).trans mounted)
    have framed := Custody.frame custody (ModuleState.loaded mounts).held
    rw [zero_add] at framed
    simp only [ModuleState.held, List.map_cons, List.sum_cons, add_assoc]
    exact framed
  | mountFails mounts counterInit dev options slab counters err fails =>
    have custody := fillSuper_leaves counters (.error err) ((mountFillSuper_value counters).trans fails)
    have framed := Custody.frame custody (ModuleState.loaded mounts).held
    rw [zero_add] at framed
    simpa [heldAfter] using framed
  | unmount before after sbi =>
    have custody := Custody.frame (killBlockSuper_leaves sbi ⟨⟩ (value_killBlockSuper sbi)) (ModuleState.loaded (before ++ after)).held
    rw [zero_add] at custody
    simp only [ModuleState.held, List.map_append, List.map_cons, List.sum_append, List.sum_cons] at custody ⊢
    rw [add_left_comm (before.map mountHeld).sum, add_assoc (mountHeld sbi)]
    exact custody
  | exit => exact .put (.put (.nil 0))

theorem moduleRun_custody {trace : List (List (RefEvent MountResource))} {s t : ModuleState}
    (run : Runs.Steps ModuleStep s trace t) : Custody s.held trace.flatten t.held := by
  induction run with
  | nil s => exact .nil _
  | cons step _ ih => exact (moduleStep_custody step).append ih

/-- However often the module is loaded and volumes are mounted and unmounted, and wherever a mount fails, what
is held is exactly what the mounted volumes and the module give back, and in the end nothing. -/
theorem module_custody {trace : List (List (RefEvent MountResource))} {t : ModuleState}
    (run : Runs.Steps ModuleStep .unloaded trace t) :
    Custody 0 trace.flatten t.held ∧ (t = .unloaded → BalancedRefs trace.flatten) := by
  have custody := moduleRun_custody run
  refine ⟨custody, ?_⟩
  intro ended
  subst ended
  exact custody

/-- The volume with two descriptor blocks, where there is no memory for the last counter. -/
def noCounter : Device := { twoTableBlocks with allocates := fun | .counters => false | _ => true }

def failsWith (err : Int) : Option (Except Int SbInfo) → Bool
  | some (.error got) => got == err
  | _ => false

theorem of_failsWith {err : Int} {result : Option (Except Int SbInfo)} (fails : failsWith err result = true) :
    result = some (.error err) := by
  rcases result with _ | got | sbi
  · cases fails
  · rw [eq_of_beq fails]
  · cases fails

theorem noCounter_fails : ext2FillSuper noCounter [] (fun _ => 0) = some (.error (-enomem)) :=
  of_failsWith (by decide +kernel)

/-- A mount that fails behind two counters, one that succeeds, an unmount and the end of the module. -/
theorem module_custody_cycle :
    ∃ sbi : SbInfo, ext2FillSuper twoTableBlocks [] (fun _ => 0) = some (.ok sbi) ∧
      BalancedRefs [(initExt2Fs true 0).run.events,
        (Mounting.ext2FillSuper (fun n => n ≠ 2) noCounter [] fun _ => 0).run.events,
        (Mounting.ext2FillSuper (fun _ => true) twoTableBlocks [] fun _ => 0).run.events,
        (killBlockSuper sbi).run.events, exitExt2Fs.run.events].flatten := by
  obtain ⟨sbi, mounted, -⟩ := twoTableBlocks_mounts
  have fails := ModuleStep.mountFails [] (fun n => decide (n ≠ 2)) noCounter [] (fun _ => 0) rfl _ noCounter_fails
  have mounts := ModuleStep.mount [] (fun _ => true) twoTableBlocks [] (fun _ => 0) rfl sbi mounted
  exact ⟨sbi, mounted, (module_custody (.cons (.init true 0 rfl) (.cons fails (.cons mounts
    (.cons (.unmount [] [] sbi) (.cons .exit (.nil _))))))).2 rfl⟩

end OsLab.Ext2
