import OsLab.Foundation.Custody
import OsLab.Ext2.Readdir

/-!
# Pages that are held

`dir.c` with the references to pages and the page locks that its functions take and drop. The bytes
change as in the functions without them. A call that comes to `BUG()` does not return.
-/

namespace OsLab.Ext2
open Bytes Records Traced

/-- A `struct page`, by the inode whose page cache it is in. -/
structure Page where
  mapping : Nat
  index : Nat
  deriving DecidableEq, Repr

inductive Hold where
  | ref (page : Page)
  | lock (page : Page)
  deriving DecidableEq, Repr

abbrev Paging (α : Type) := OptionT (Traced (RefEvent Hold)) α

namespace Paged

def bug {α : Type} : Paging α := OptionT.fail

/-- The reference that `read_mapping_page` and `grab_cache_page` return. -/
def takePage (page : Page) : Paging PUnit := OptionT.lift (emit (.get (.ref page)))

def ext2PutPage (page : Page) : Paging PUnit := OptionT.lift (emit (.put (.ref page)))

def lockPage (page : Page) : Paging PUnit := OptionT.lift (emit (.get (.lock page)))

def unlockPage (page : Page) : Paging PUnit := OptionT.lift (emit (.put (.lock page)))

/-- The kernel's `write_one_page` unlocks the page, whatever it returns. -/
def writeOnePage (page : Page) : Paging PUnit := unlockPage page

variable (v : DirVolume) (cache : PageCache) (mapping : Nat) (dir : Dir)

def ext2GetPage (n : Nat) : Paging (Except Int Page) :=
  let page : Page := ⟨mapping, n⟩
  if cache.readPage n ≠ 0 then pure (.error (cache.readPage n))
  else do
    takePage page
    if cache.pageChecked n then pure (.ok page)
    else if cache.pageError n then do
      ext2PutPage page
      pure (.error (-eio))
    else
      match ext2CheckPage v dir n with
      | .error _ => do
        ext2PutPage page
        pure (.error (-eio))
      | .ok () => pure (.ok page)

/-- The page leaves `ext2_commit_chunk` unlocked. -/
def ext2CommitChunk (page : Page) (result : Int × Dir) : Paging (Int × Dir) := do
  if dir.isDirsync then writeOnePage page else unlockPage page
  pure result

/-! ### Lookup -/

def findInPages (child : List UInt8) : Nat → Nat → Paging (Except Int (Nat × Page))
  | 0, _ => pure (.error (-enoent))
  | left + 1, i => do
    match ← ext2GetPage v cache mapping dir i with
    | .error err => pure (.error err)
    | .ok page =>
      let kaddr := i <<< pageShift
      match (walk (fun de => de + ext2DirRecLen child.length ≤ kaddr + ext2LastByte dir i) (findEntry dir.data child)
          (ext2NextEntry dir.data) (pageSize + 1) () kaddr).forget with
      | .exit (.error err) => do
        ext2PutPage page
        pure (.error err)
      | .exit (.ok de) => pure (.ok (de, page))
      | .next () => do
        ext2PutPage page
        findInPages child left (i + 1)

/-- The page of the entry is returned held. -/
def ext2FindEntry (child : List UInt8) : Paging (Except Int (Nat × Page)) :=
  if dirPages dir = 0 then pure (.error (-enoent)) else findInPages v cache mapping dir child (dirPages dir) 0

def ext2InodeByName (child : List UInt8) : Paging (Except Int Nat) := do
  match ← ext2FindEntry v cache mapping dir child with
  | .error err => pure (.error err)
  | .ok (de, page) => do
    ext2PutPage page
    pure (.ok (deInode dir.data de))

def ext2Dotdot : Paging (Option (Nat × Page)) := do
  match ← ext2GetPage v cache mapping dir 0 with
  | .error _ => pure none
  | .ok page => pure (some (ext2NextEntry dir.data 0, page))

/-! ### Changes -/

/-- Releases the page. -/
def ext2SetLink (de iNo : Nat) (page : Page) : Paging Dir := do
  lockPage page
  match Ext2.ext2SetLink v cache dir de iNo with
  | none => bug
  | some dir' => do
    let (_, dir') ← ext2CommitChunk dir page (0, dir')
    ext2PutPage page
    pure dir'

def addInPages (name : List UInt8) : Nat → Nat → Paging (Except Int (GotIt × Page))
  | 0, _ => bug
  | left + 1, n => do
    match ← ext2GetPage v cache mapping dir n with
    | .error err => pure (.error err)
    | .ok page => do
      lockPage page
      let kaddr := n <<< pageShift
      match (walk (fun de => de + ext2DirRecLen name.length ≤ kaddr + pageSize)
          (addEntry v dir name (kaddr + ext2LastByte dir n)) (fun de => de + deRecLen dir.data de) (pageSize + 1) ()
          kaddr).forget with
      | .exit (.error err) => do
        unlockPage page
        ext2PutPage page
        pure (.error err)
      | .exit (.ok got) => pure (.ok (got, page))
      | .next () => do
        unlockPage page
        ext2PutPage page
        addInPages name left (n + 1)

def ext2AddLink (name : List UInt8) (iNo : Nat) : Paging (Int × Dir) := do
  match ← addInPages v cache mapping dir name (dirPages dir + 1) 0 with
  | .error err => pure (err, dir)
  | .ok (got, page) =>
    let result := addGotIt v cache dir name iNo got
    if ext2PrepareChunk v cache got.de got.recLen ≠ 0 then do
      unlockPage page
      ext2PutPage page
      pure result
    else do
      let result ← ext2CommitChunk dir page result
      ext2PutPage page
      pure result

/-- Releases the page. -/
def ext2DeleteEntry (de : Nat) (page : Page) : Paging (Int × Dir) :=
  let kaddr := page.index <<< pageShift
  let start := (de - kaddr) &&& complement (ext2ChunkSize v - 1)
  let toEntry : Loop Int (Option Nat × Nat) :=
    walk (fun p => p < de) (fun _ p => if deRecLen dir.data p = 0 then .exit (-eio) else .next (some p))
      (ext2NextEntry dir.data) (pageSize + 1) none (kaddr + start)
  match toEntry with
  | .exit err => do
    ext2PutPage page
    pure (err, dir)
  | .next _ => do
    lockPage page
    match Ext2.ext2DeleteEntry v cache dir de with
    | none => bug
    | some result => do
      let result ← ext2CommitChunk dir page result
      ext2PutPage page
      pure result

/-! ### Empty directories -/

def ext2MakeEmpty (parent : Nat) : Paging (Int × Dir) :=
  let page : Page := ⟨mapping, 0⟩
  let result := Ext2.ext2MakeEmpty v cache dir parent
  if !cache.grabCachePage then pure result
  else do
    takePage page
    lockPage page
    if ext2PrepareChunk v cache 0 (ext2ChunkSize v) ≠ 0 then do
      unlockPage page
      ext2PutPage page
      pure result
    else do
      let result ← ext2CommitChunk dir page result
      ext2PutPage page
      pure result

def emptyPages : Nat → Nat → Paging Bool
  | 0, _ => pure true
  | left + 1, i => do
    match ← ext2GetPage v cache mapping dir i with
    | .error _ => emptyPages left (i + 1)
    | .ok page =>
      let kaddr := i <<< pageShift
      match (walk (fun de => de + ext2DirRecLen 1 ≤ kaddr + ext2LastByte dir i) (emptyEntry dir)
          (ext2NextEntry dir.data) (pageSize + 1) () kaddr).forget with
      | .exit () => do
        ext2PutPage page
        pure false
      | .next () => do
        ext2PutPage page
        emptyPages left (i + 1)

def ext2EmptyDir : Paging Bool := emptyPages v cache mapping dir (dirPages dir) 0

/-! ### Reading -/

def readdirPages : Nat → Nat → Readdir → Paging (Loop (Int × Readdir) Readdir)
  | 0, _, st => pure (.next st)
  | left + 1, n, st => do
    match ← ext2GetPage v cache mapping dir n with
    | .error err => pure (.exit (err, { st with ctx := { st.ctx with pos := st.ctx.pos + (pageSize - st.offset) } }))
    | .ok page =>
      let st := revalidate v dir n st
      let kaddr := n <<< pageShift
      match (walk (fun de => de + ext2DirRecLen 1 ≤ kaddr + ext2LastByte dir n) (emitEntry dir.data)
          (ext2NextEntry dir.data) (pageSize + 1) st.ctx (kaddr + st.offset)).forget with
      | .exit (ret, ctx) => do
        ext2PutPage page
        pure (.exit (ret, { st with ctx := ctx }))
      | .next ctx => do
        ext2PutPage page
        readdirPages left (n + 1) { st with offset := 0, ctx := ctx }

def ext2Readdir (file : OpenDir) (budget : Nat) : Paging (Int × List Link × OpenDir) :=
  if dir.iSize < file.pos + ext2DirRecLen 1 then pure (0, [], file)
  else do
    let n := file.pos >>> pageShift
    let read ← readdirPages v cache mapping dir (dirPages dir - n) n (readdirStart dir file budget)
    pure (readdirResult read)

end Paged

variable {v : DirVolume} {cache : PageCache} {mapping : Nat} {dir : Dir}

/-! ### Without the pages -/

section values

variable (page : Page)

@[simp] theorem takePage_value : (Paged.takePage page).run.value = some ⟨⟩ := rfl
@[simp] theorem putPage_value : (Paged.ext2PutPage page).run.value = some ⟨⟩ := rfl
@[simp] theorem lockPage_value : (Paged.lockPage page).run.value = some ⟨⟩ := rfl
@[simp] theorem unlockPage_value : (Paged.unlockPage page).run.value = some ⟨⟩ := rfl

@[simp] theorem commitChunk_value (result : Int × Dir) : (Paged.ext2CommitChunk dir page result).run.value = some result := by
  unfold Paged.ext2CommitChunk
  split_ifs <;> rfl

@[simp] theorem paged_pure_value {α : Type} (a : α) : (pure a : Paging α).run.value = some a := rfl

end values

theorem getPage_value (n : Nat) :
    (Paged.ext2GetPage v cache mapping dir n).run.value =
      some ((ext2GetPage v cache dir n).map fun _ => ⟨mapping, n⟩) := by
  unfold Paged.ext2GetPage ext2GetPage
  simp only [value_optionT_ite, value_optionT_bind, takePage_value, putPage_value, Option.bind_some, paged_pure_value]
  split_ifs
  · rfl
  · rfl
  · rfl
  · cases ext2CheckPage v dir n <;> rfl

/-- An entry that is found lies in the page that is searched. -/
theorem findEntry_page {child : List UInt8} {i de : Nat} (short : child.length ≤ 255)
    (found : (walk (fun de => de + ext2DirRecLen child.length ≤ i <<< pageShift + ext2LastByte dir i)
      (findEntry dir.data child) (ext2NextEntry dir.data) (pageSize + 1) () (i <<< pageShift)).forget = .exit (.ok de)) :
    de >>> pageShift = i := by
  obtain ⟨u, x, low, inside, visited⟩ := walk_exit_place (fun x => Nat.le_add_right x _) (forget_exit found)
  have same : x = de := by
    unfold findEntry at visited
    split_ifs at visited
    · cases visited
    · exact Except.ok.inj (Loop.exit.inj visited)
  have last : ext2LastByte dir i ≤ 4096 := by
    unfold ext2LastByte
    simp only [show pageSize = 4096 from rfl]
    split_ifs <;> omega
  have record := (@ext2DirRecLen_bounds child.length (by omega)).1
  have high := of_decide_eq_true inside
  rw [page_shiftLeft] at low high
  rw [page_shiftRight, ← same]
  omega

theorem findInPages_value {child : List UInt8} (short : child.length ≤ 255) (left i : Nat) :
    (Paged.findInPages v cache mapping dir child left i).run.value =
      some (match rounds (findInPage v cache dir child) left i () with
        | .exit found => found.map fun de => (de, ⟨mapping, de >>> pageShift⟩)
        | .next () => .error (-enoent)) := by
  induction left generalizing i with
  | zero => rfl
  | succ left ih =>
    unfold Paged.findInPages
    rw [rounds, findInPage, value_optionT_bind, getPage_value, Option.bind_some]
    cases ext2GetPage v cache dir i with
    | error err => rfl
    | ok done =>
      simp only [Except.map]
      cases found : (walk (fun de => de + ext2DirRecLen child.length ≤ i <<< pageShift + ext2LastByte dir i)
        (findEntry dir.data child) (ext2NextEntry dir.data) (pageSize + 1) () (i <<< pageShift)).forget with
      | exit found' =>
        cases found' with
        | error err => rfl
        | ok de =>
          simp only [Loop.bind_exit, paged_pure_value, findEntry_page short found]
      | next u =>
        simp only [Loop.bind_next, value_optionT_bind, putPage_value, Option.bind_some]
        exact ih (i + 1)

theorem findEntry_value {child : List UInt8} (short : child.length ≤ 255) :
    (Paged.ext2FindEntry v cache mapping dir child).run.value =
      some ((ext2FindEntry v cache dir child).map fun de => (de, ⟨mapping, de >>> pageShift⟩)) := by
  unfold Paged.ext2FindEntry ext2FindEntry
  rw [value_optionT_ite, findInPages_value short]
  split_ifs
  · rfl
  · cases rounds (findInPage v cache dir child) (dirPages dir) 0 () <;> rfl

theorem inodeByName_value {child : List UInt8} (short : child.length ≤ 255) :
    (Paged.ext2InodeByName v cache mapping dir child).run.value = some (ext2InodeByName v cache dir child) := by
  unfold Paged.ext2InodeByName ext2InodeByName
  rw [value_optionT_bind, findEntry_value short]
  cases ext2FindEntry v cache dir child <;> rfl

theorem dotdot_value :
    (Paged.ext2Dotdot v cache mapping dir).run.value =
      some ((ext2Dotdot v cache dir).map fun de => (de, ⟨mapping, 0⟩)) := by
  unfold Paged.ext2Dotdot ext2Dotdot
  rw [value_optionT_bind, getPage_value]
  cases ext2GetPage v cache dir 0 <;> rfl

theorem setLink_value (de iNo : Nat) (page : Page) :
    (Paged.ext2SetLink v cache dir de iNo page).run.value = ext2SetLink v cache dir de iNo := by
  unfold Paged.ext2SetLink
  rw [value_optionT_bind, lockPage_value, Option.bind_some]
  cases ext2SetLink v cache dir de iNo with
  | none => rfl
  | some dir' =>
    simp only [value_optionT_bind, commitChunk_value, putPage_value, Option.bind_some, paged_pure_value]

theorem addInPages_value (name : List UInt8) (left n : Nat) :
    (Paged.addInPages v cache mapping dir name left n).run.value.map (·.map (·.1)) =
      match rounds (addInPage v cache dir name) left n () with
      | .exit found => some found
      | .next () => none := by
  induction left generalizing n with
  | zero => rfl
  | succ left ih =>
    unfold Paged.addInPages
    rw [rounds, addInPage, value_optionT_bind, getPage_value, Option.bind_some]
    cases ext2GetPage v cache dir n with
    | error err => rfl
    | ok done =>
      simp only [Except.map, value_optionT_bind, lockPage_value, Option.bind_some]
      cases (walk (fun de => de + ext2DirRecLen name.length ≤ n <<< pageShift + pageSize)
          (addEntry v dir name (n <<< pageShift + ext2LastByte dir n)) (fun de => de + deRecLen dir.data de) (pageSize + 1) ()
          (n <<< pageShift)).forget with
      | exit found =>
        cases found with
        | error err => rfl
        | ok got => rfl
      | next u =>
        simp only [Loop.bind_next, value_optionT_bind, unlockPage_value, putPage_value, Option.bind_some]
        exact ih (n + 1)

theorem addLink_value (name : List UInt8) (iNo : Nat) :
    (Paged.ext2AddLink v cache mapping dir name iNo).run.value = ext2AddLink v cache dir name iNo := by
  have same := @addInPages_value v cache mapping dir name (dirPages dir + 1) 0
  unfold Paged.ext2AddLink ext2AddLink
  rw [value_optionT_bind]
  generalize rounds (addInPage v cache dir name) (dirPages dir + 1) 0 () = base at same ⊢
  cases reached : (Paged.addInPages v cache mapping dir name (dirPages dir + 1) 0).run.value with
  | none =>
    rw [reached] at same
    cases base with
    | exit found => cases same
    | next u => rfl
  | some found =>
    rw [reached] at same
    cases base with
    | exit found' =>
      obtain rfl := Option.some.inj same
      cases found with
      | error err => rfl
      | ok got =>
        simp only [Option.bind_some, Except.map, value_optionT_ite, value_optionT_bind, unlockPage_value, putPage_value,
          commitChunk_value, paged_pure_value, ite_self]
    | next u => cases same

theorem deleteEntry_value (de : Nat) :
    (Paged.ext2DeleteEntry v cache dir de ⟨mapping, de >>> pageShift⟩).run.value = ext2DeleteEntry v cache dir de := by
  unfold Paged.ext2DeleteEntry
  simp only
  split
  · rename_i found
    unfold ext2DeleteEntry
    simp only [found, value_optionT_bind, putPage_value, Option.bind_some, paged_pure_value]
  · rw [value_optionT_bind, lockPage_value, Option.bind_some]
    cases ext2DeleteEntry v cache dir de with
    | none => rfl
    | some result =>
      simp only [value_optionT_bind, commitChunk_value, putPage_value, Option.bind_some, paged_pure_value]

theorem makeEmpty_value (parent : Nat) :
    (Paged.ext2MakeEmpty v cache mapping dir parent).run.value = some (ext2MakeEmpty v cache dir parent) := by
  unfold Paged.ext2MakeEmpty
  simp only [value_optionT_ite, value_optionT_bind, takePage_value, lockPage_value, unlockPage_value, putPage_value,
    commitChunk_value, paged_pure_value, Option.bind_some, ite_self]

theorem emptyPages_value (left i : Nat) :
    (Paged.emptyPages v cache mapping dir left i).run.value =
      some (match rounds (emptyPage v cache dir) left i () with
        | .exit () => false
        | .next () => true) := by
  induction left generalizing i with
  | zero => rfl
  | succ left ih =>
    unfold Paged.emptyPages
    rw [rounds, emptyPage, value_optionT_bind, getPage_value, Option.bind_some]
    cases ext2GetPage v cache dir i with
    | error err => exact ih (i + 1)
    | ok done =>
      simp only [Except.map]
      cases (walk (fun de => de + ext2DirRecLen 1 ≤ i <<< pageShift + ext2LastByte dir i) (emptyEntry dir)
          (ext2NextEntry dir.data) (pageSize + 1) () (i <<< pageShift)).forget with
      | exit u => rfl
      | next u =>
        simp only [Loop.bind_next, value_optionT_bind, putPage_value, Option.bind_some]
        exact ih (i + 1)

theorem emptyDir_value : (Paged.ext2EmptyDir v cache mapping dir).run.value = some (ext2EmptyDir v cache dir) := by
  unfold Paged.ext2EmptyDir ext2EmptyDir
  rewrite [emptyPages_value]
  cases rounds (emptyPage v cache dir) (dirPages dir) 0 () <;> rfl

theorem readdirPages_value (left n : Nat) (st : Readdir) :
    (Paged.readdirPages v cache mapping dir left n st).run.value = some (rounds (readdirPage v cache dir) left n st) := by
  induction left generalizing n st with
  | zero => rfl
  | succ left ih =>
    unfold Paged.readdirPages
    rw [rounds, readdirPage, value_optionT_bind, getPage_value, Option.bind_some]
    cases ext2GetPage v cache dir n with
    | error err => rfl
    | ok done =>
      simp only [Except.map]
      cases (walk (fun de => de + ext2DirRecLen 1 ≤ n <<< pageShift + ext2LastByte dir n) (emitEntry dir.data)
          (ext2NextEntry dir.data) (pageSize + 1) (revalidate v dir n st).ctx
          (n <<< pageShift + (revalidate v dir n st).offset)).forget with
      | exit left => rfl
      | next ctx =>
        simp only [Loop.bind_next, value_optionT_bind, putPage_value, Option.bind_some]
        exact ih (n + 1) _

theorem readdir_value (file : OpenDir) (budget : Nat) :
    (Paged.ext2Readdir v cache mapping dir file budget).run.value = some (ext2Readdir v cache dir file budget) := by
  unfold Paged.ext2Readdir ext2Readdir
  rw [value_optionT_ite]
  split_ifs
  · rfl
  · simp only [value_optionT_bind, readdirPages_value, Option.bind_some, paged_pure_value]

/-! ### What each function holds at its end -/

/-- The reference to a page that a function returns. -/
def owned (page : Option Page) : Multiset Hold := page.elim 0 fun page => {.ref page}

section steps

variable {α : Type} {page : Page} {held pre : Multiset Hold} {f : PUnit → Paging α} {post : α → Multiset Hold}

theorem take_bind (rest : Leaves (.ref page ::ₘ pre) (f ⟨⟩) post) : Leaves pre (Paged.takePage page >>= f) post :=
  Leaves.bind Leaves.get fun _ => rest

theorem put_bind (rest : Leaves pre (f ⟨⟩) post) (same : held = .ref page ::ₘ pre) :
    Leaves held (Paged.ext2PutPage page >>= f) post :=
  Leaves.bind (Leaves.put same) fun _ => rest

theorem lock_bind (rest : Leaves (.lock page ::ₘ pre) (f ⟨⟩) post) : Leaves pre (Paged.lockPage page >>= f) post :=
  Leaves.bind Leaves.get fun _ => rest

theorem unlock_bind (rest : Leaves pre (f ⟨⟩) post) (same : held = .lock page ::ₘ pre) :
    Leaves held (Paged.unlockPage page >>= f) post :=
  Leaves.bind (Leaves.put same) fun _ => rest

/-- A commit unlocks the page, and the caller drops it. -/
theorem commit_bind {result : Int × Dir} {f : Int × Dir → Paging α} (rest : ∀ result, Leaves pre (f result) post)
    (same : held = .lock page ::ₘ .ref page ::ₘ pre) :
    Leaves held (do
      let result ← Paged.ext2CommitChunk dir page result
      Paged.ext2PutPage page
      f result) post := by
  subst same
  have unlocked : Leaves (.lock page ::ₘ .ref page ::ₘ pre) (Paged.ext2CommitChunk dir page result)
      fun _ => .ref page ::ₘ pre := by
    unfold Paged.ext2CommitChunk
    split_ifs
    · exact unlock_bind (Leaves.pure rfl) rfl
    · exact unlock_bind (Leaves.pure rfl) rfl
  exact Leaves.bind unlocked fun result => put_bind (rest result) rfl

end steps

theorem getPage_leaves (n : Nat) : Leaves 0 (Paged.ext2GetPage v cache mapping dir n) fun read => owned read.toOption := by
  unfold Paged.ext2GetPage
  simp only
  split_ifs
  · exact Leaves.pure rfl
  · exact take_bind (Leaves.pure rfl)
  · exact take_bind (put_bind (Leaves.pure rfl) rfl)
  · apply take_bind
    cases ext2CheckPage v dir n with
    | error bad => exact put_bind (Leaves.pure rfl) rfl
    | ok checked => exact Leaves.pure rfl

theorem findInPages_leaves (child : List UInt8) (left i : Nat) :
    Leaves 0 (Paged.findInPages v cache mapping dir child left i) fun found => owned (found.toOption.map (·.2)) := by
  induction left generalizing i with
  | zero => exact Leaves.pure rfl
  | succ left ih =>
    unfold Paged.findInPages
    apply Leaves.bind (getPage_leaves i)
    rintro (err | page)
    · exact Leaves.pure rfl
    · simp only
      split
      · exact put_bind (Leaves.pure rfl) rfl
      · exact Leaves.pure rfl
      · exact put_bind (ih (i + 1)) rfl

theorem findEntry_leaves (child : List UInt8) :
    Leaves 0 (Paged.ext2FindEntry v cache mapping dir child) fun found => owned (found.toOption.map (·.2)) := by
  unfold Paged.ext2FindEntry
  split_ifs
  · exact Leaves.pure rfl
  · exact findInPages_leaves child _ _

theorem inodeByName_leaves (child : List UInt8) :
    Leaves 0 (Paged.ext2InodeByName v cache mapping dir child) fun _ => 0 := by
  unfold Paged.ext2InodeByName
  apply Leaves.bind (findEntry_leaves child)
  rintro (err | ⟨de, page⟩)
  · exact Leaves.pure rfl
  · exact put_bind (Leaves.pure rfl) rfl

theorem dotdot_leaves : Leaves 0 (Paged.ext2Dotdot v cache mapping dir) fun found => owned (found.map (·.2)) := by
  unfold Paged.ext2Dotdot
  apply Leaves.bind (getPage_leaves 0)
  rintro (err | page)
  · exact Leaves.pure rfl
  · exact Leaves.pure rfl

theorem setLink_leaves (de iNo : Nat) (page : Page) :
    Leaves (owned (some page)) (Paged.ext2SetLink v cache dir de iNo page) fun _ => 0 := by
  unfold Paged.ext2SetLink
  apply lock_bind
  cases ext2SetLink v cache dir de iNo with
  | none => exact Leaves.never
  | some dir' =>
    exact commit_bind (fun _ => Leaves.pure rfl) rfl

theorem addInPages_leaves (name : List UInt8) (left n : Nat) :
    Leaves 0 (Paged.addInPages v cache mapping dir name left n) fun found =>
      found.toOption.elim 0 fun got => {.lock got.2, .ref got.2} := by
  induction left generalizing n with
  | zero => exact Leaves.never
  | succ left ih =>
    unfold Paged.addInPages
    apply Leaves.bind (getPage_leaves n)
    rintro (err | page)
    · exact Leaves.pure rfl
    · apply lock_bind
      simp only
      split
      · exact unlock_bind (put_bind (Leaves.pure rfl) rfl) rfl
      · exact Leaves.pure rfl
      · exact unlock_bind (put_bind (ih (n + 1)) rfl) rfl

theorem addLink_leaves (name : List UInt8) (iNo : Nat) :
    Leaves 0 (Paged.ext2AddLink v cache mapping dir name iNo) fun _ => 0 := by
  unfold Paged.ext2AddLink
  apply Leaves.bind (addInPages_leaves name _ _)
  rintro (err | ⟨got, page⟩)
  · exact Leaves.pure rfl
  · simp only
    split_ifs
    · exact unlock_bind (put_bind (Leaves.pure rfl) rfl) rfl
    · exact commit_bind (fun _ => Leaves.pure rfl) rfl

theorem deleteEntry_leaves (de : Nat) (page : Page) :
    Leaves (owned (some page)) (Paged.ext2DeleteEntry v cache dir de page) fun _ => 0 := by
  unfold Paged.ext2DeleteEntry
  simp only
  split
  · exact put_bind (Leaves.pure rfl) rfl
  · apply lock_bind
    cases ext2DeleteEntry v cache dir de with
    | none => exact Leaves.never
    | some result =>
      exact commit_bind (fun _ => Leaves.pure rfl) rfl

theorem makeEmpty_leaves (parent : Nat) : Leaves 0 (Paged.ext2MakeEmpty v cache mapping dir parent) fun _ => 0 := by
  unfold Paged.ext2MakeEmpty
  simp only
  split_ifs
  · exact Leaves.pure rfl
  · exact take_bind (lock_bind (unlock_bind (put_bind (Leaves.pure rfl) rfl) rfl))
  · apply take_bind
    apply lock_bind
    exact commit_bind (fun _ => Leaves.pure rfl) rfl

theorem emptyPages_leaves (left i : Nat) : Leaves 0 (Paged.emptyPages v cache mapping dir left i) fun _ => 0 := by
  induction left generalizing i with
  | zero => exact Leaves.pure rfl
  | succ left ih =>
    unfold Paged.emptyPages
    apply Leaves.bind (getPage_leaves i)
    rintro (err | page)
    · exact ih (i + 1)
    · simp only
      split
      · exact put_bind (Leaves.pure rfl) rfl
      · exact put_bind (ih (i + 1)) rfl

theorem readdirPages_leaves (left n : Nat) (st : Readdir) :
    Leaves 0 (Paged.readdirPages v cache mapping dir left n st) fun _ => 0 := by
  induction left generalizing n st with
  | zero => exact Leaves.pure rfl
  | succ left ih =>
    unfold Paged.readdirPages
    apply Leaves.bind (getPage_leaves n)
    rintro (err | page)
    · exact Leaves.pure rfl
    · simp only
      split
      · exact put_bind (Leaves.pure rfl) rfl
      · exact put_bind (ih _ _) rfl

theorem readdir_leaves (file : OpenDir) (budget : Nat) :
    Leaves 0 (Paged.ext2Readdir v cache mapping dir file budget) fun _ => 0 := by
  unfold Paged.ext2Readdir
  split_ifs
  · exact Leaves.pure rfl
  · apply Leaves.bind (readdirPages_leaves _ _ _)
    exact fun _ => Leaves.pure rfl

end OsLab.Ext2
