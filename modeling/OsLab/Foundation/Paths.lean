import Mathlib.Data.List.Induction
import OsLab.Foundation.Hierarchy

/-!
# Paths

What a path of names leads to, one name after another. A step that changes at one vertex changes
the paths through that name and no others. In a hierarchy a single path leads to each directory,
and what is no directory has as many paths as there are names for it.
-/

namespace Paths

variable {V K : Type*} {step step' : V → K → Option V} {root d x y : V} {k l : K} {p q : List K} {o : Option V}

/-- The vertex that a path leads to. -/
def follow (step : V → K → Option V) (x : V) (path : List K) : Option V := path.foldlM step x

theorem follow_nil : follow step x [] = some x := rfl

theorem follow_append : follow step x (p ++ q) = (follow step x p).bind fun y => follow step y q := List.foldlM_append

theorem follow_snoc : follow step x (p ++ [k]) = (follow step x p).bind fun y => step y k := by
  rw [follow_append]
  exact congrArg (follow step x p).bind (funext fun y => bind_pure (step y k))

theorem follow_named (found : follow step x p = some y) : follow step x (p ++ [k]) = step y k := by
  rw [follow_snoc, found, Option.bind_some]

theorem snoc_found (found : follow step x (p ++ [k]) = some y) : ∃ z, follow step x p = some z ∧ step z k = some y := by
  rw [follow_snoc] at found
  exact Option.bind_eq_some_iff.mp found

/-- What has no names ends every path through it. -/
theorem beyond (leaf : ∀ x, follow step root p = some x → ∀ l, step x l = none) (behind : p <+: q) (other : q ≠ p) :
    follow step root q = none := by
  obtain ⟨rest, rfl⟩ := behind
  induction rest using List.reverseRecOn with
  | nil => exact absurd (List.append_nil p) other
  | append_singleton rest l ih =>
    rw [← List.append_assoc, follow_snoc]
    by_cases first : rest = []
    · subst first
      rw [List.append_nil]
      cases found : follow step root p with
      | none => rfl
      | some x => exact leaf x found l
    · rw [ih fun same => first (List.append_right_eq_self.mp same), Option.bind_none]

/-- Systems that agree at the vertices that the paths lead to have the same paths. -/
theorem follow_congr (same : ∀ q x l, follow step root q = some x → step' x l = step x l) : follow step' root = follow step root := by
  funext q
  induction q using List.reverseRecOn with
  | nil => rfl
  | append_singleton q l ih =>
    rw [follow_snoc, follow_snoc, ih]
    cases found : follow step root q with
    | none => rfl
    | some x => exact same q x l found

/-! ### Names that change -/

variable [DecidableEq K]

/-- The paths after a move: what was behind the source is behind the target. -/
def moved (paths : List K → Option V) (source target : List K) (q : List K) : Option V :=
  if target <+: q then paths (source ++ q.drop target.length)
  else if source <+: q then none
  else paths q

theorem moved_target (paths : List K → Option V) (source target rest : List K) :
    moved paths source target (target ++ rest) = paths (source ++ rest) := by
  rw [moved, if_pos (List.prefix_append _ _), List.drop_left]

variable [DecidableEq V]

/-- A name of a vertex that one path leads to is bound to a leaf, or gets free. -/
theorem follow_bind (here : follow step root p = some d) (only : ∀ q, follow step root q = some d → q = p)
    (old : ∀ x, step d k = some x → ∀ l, step x l = none) (new : ∀ x, o = some x → ∀ l, step' x l = none)
    (same : ∀ q x l, q ≠ p ++ [k] → follow step root q = some x → step' x l = if x = d ∧ l = k then o else step x l) :
    follow step' root = Function.update (follow step root) (p ++ [k]) o := by
  funext q
  induction q using List.reverseRecOn with
  | nil => rw [Function.update_of_ne (by simp), follow_nil, follow_nil]
  | append_singleton q l ih =>
    rw [follow_snoc, ih]
    by_cases through : q = p ++ [k]
    · subst through
      rw [Function.update_self, Function.update_of_ne (by simp)]
      have ends : follow step root (p ++ [k] ++ [l]) = none := by
        apply beyond (p := p ++ [k]) _ (List.prefix_append _ _) (by simp)
        intro x found
        rw [follow_named here] at found
        exact old x found
      rw [ends]
      cases bound : o with
      | none => rfl
      | some x => exact new x bound l
    · rw [Function.update_of_ne through]
      by_cases named : q ++ [l] = p ++ [k]
      · obtain ⟨rfl, last⟩ := List.append_inj' named rfl
        obtain rfl := List.singleton_inj.mp last
        rw [here, Option.bind_some, same q d l through here, if_pos ⟨rfl, rfl⟩, Function.update_self]
      · rw [Function.update_of_ne named, follow_snoc]
        cases found : follow step root q with
        | none => rfl
        | some x =>
          rw [Option.bind_some, Option.bind_some, same q x l through found, if_neg]
          intro both
          obtain rfl := only q (both.1 ▸ found)
          exact named (by rw [both.2])

/-- A name of one vertex passes to a name of another, which is free or names a leaf, and which is not behind the first. -/
theorem follow_move {d' : V} {k' : K} {p' : List K} (here : follow step root p = some d)
    (only : ∀ q, follow step root q = some d → q = p) (here' : follow step root p' = some d')
    (only' : ∀ q, follow step root q = some d' → q = p') (differ : p ++ [k] ≠ p' ++ [k']) (apart : ¬ p ++ [k] <+: p')
    (named : (step d k).isSome) (old : ∀ x, step d' k' = some x → ∀ l, step x l = none)
    (same : ∀ q x l, follow step root q = some x →
      step' x l = if x = d ∧ l = k then none else if x = d' ∧ l = k' then step d k else step x l) :
    follow step' root = moved (follow step root) (p ++ [k]) (p' ++ [k']) := by
  have leaf : ∀ x, follow step root (p' ++ [k']) = some x → ∀ l, step x l = none := by
    intro x found
    rw [follow_named here'] at found
    exact old x found
  -- Nothing that is named is behind the target.
  have front : ¬ p' ++ [k'] <+: p := by
    intro behind
    have ends : follow step root (p ++ [k]) = none := beyond leaf (List.prefix_append_of_prefix behind) differ
    rw [follow_named here] at ends
    rw [ends] at named
    cases named
  funext q
  induction q using List.reverseRecOn with
  | nil => simp [moved, follow_nil]
  | append_singleton q l ih =>
    rw [follow_snoc, ih]
    by_cases target : p' ++ [k'] <+: q ++ [l]
    · rcases List.prefix_concat_iff.mp target with ends | inside
      · obtain ⟨rfl, last⟩ := List.append_inj' ends rfl
        obtain rfl := List.singleton_inj.mp last
        have before : ¬ p' ++ [k'] <+: p' := fun longer => by
          have length := longer.length_le
          simp at length
        have moves : moved (follow step root) (p ++ [k]) (p' ++ [k']) (p' ++ [k']) = follow step root (p ++ [k]) := by
          simpa using moved_target (follow step root) (p ++ [k]) (p' ++ [k']) []
        rw [moves, moved, if_neg before, if_neg apart, here', Option.bind_some, same p' d' k' here', follow_named here, if_neg,
          if_pos ⟨rfl, rfl⟩]
        intro both
        obtain rfl := only p' (both.1 ▸ here')
        exact differ (by rw [both.2])
      · obtain ⟨rest, rfl⟩ := inside
        rw [moved_target, List.append_assoc (p' ++ [k']), moved_target, ← List.append_assoc, follow_snoc]
        cases found : follow step root (p ++ [k] ++ rest) with
        | none => rfl
        | some x =>
          rw [Option.bind_some, Option.bind_some, same _ x l found, if_neg, if_neg]
          · intro both
            have longer := only' _ (both.1 ▸ found)
            exact apart ⟨rest, longer⟩
          · intro both
            have longer := congrArg List.length (only _ (both.1 ▸ found))
            simp only [List.length_append, List.length_singleton] at longer
            omega
    · have short : ¬ p' ++ [k'] <+: q := fun inside => target (List.prefix_append_of_prefix inside)
      have still : moved (follow step root) (p ++ [k]) (p' ++ [k']) (q ++ [l]) =
          if p ++ [k] <+: q ++ [l] then none else follow step root (q ++ [l]) := if_neg target
      rw [still, moved, if_neg short]
      by_cases source : p ++ [k] <+: q ++ [l]
      · rw [if_pos source]
        rcases List.prefix_concat_iff.mp source with ends | inside
        · obtain ⟨rfl, last⟩ := List.append_inj' ends rfl
          obtain rfl := List.singleton_inj.mp last
          have before : ¬ p ++ [k] <+: p := fun longer => by
            have length := longer.length_le
            simp at length
          rw [if_neg before, here, Option.bind_some, same p d k here, if_pos ⟨rfl, rfl⟩]
        · rw [if_pos inside, Option.bind_none]
      · rw [if_neg source, if_neg fun inside => source (List.prefix_append_of_prefix inside), follow_snoc]
        cases found : follow step root q with
        | none => rfl
        | some x =>
          rw [Option.bind_some, Option.bind_some, same q x l found, if_neg, if_neg]
          · intro both
            obtain rfl := only' q (both.1 ▸ found)
            exact target (by rw [both.2])
          · intro both
            obtain rfl := only q (both.1 ▸ found)
            exact source (by rw [both.2])

end Paths

/-! ### Paths of a hierarchy -/

namespace Hierarchies
open Paths

variable {V K : Type*} {f : Frame V K} {g : Graph V K} {step : V → K → Option V} {d i : V} {p q : List K}

/-- A step takes a name of the tree, in a directory. -/
def Traverses (f : Frame V K) (g : Graph V K) (step : V → K → Option V) : Prop :=
  ∀ x k y, step x k = some y ↔ g.isDir x ∧ f.Inner k ∧ g.edge x k = some y

theorem Traverses.below (traverses : Traverses f g step) {x : V} (found : follow step x p = some d) (isDir : g.isDir d) :
    Below f g x d := by
  induction p using List.reverseRecOn generalizing d with
  | nil =>
    obtain rfl := Option.some.inj found
    exact Relation.ReflTransGen.refl
  | append_singleton p k ih =>
    obtain ⟨y, above, last⟩ := snoc_found found
    obtain ⟨directory, inner, named⟩ := (traverses y k d).mp last
    exact (ih above directory).tail ⟨k, inner, named, isDir⟩

theorem Traverses.linked (traverses : Traverses f g step) (found : follow step f.root p = some d) (isDir : g.isDir d) :
    Linked f g d := traverses.below found isDir

theorem Hierarchy.path (h : Hierarchy f g) (traverses : Traverses f g step) (linked : Linked f g d) :
    ∃ p, follow step f.root p = some d := by
  induction linked with
  | refl => exact ⟨[], rfl⟩
  | @tail x d above last ih =>
    obtain ⟨k, inner, named, isDir⟩ := last
    obtain ⟨p, found⟩ := ih
    exact ⟨p ++ [k], by rw [follow_named found, (traverses x k d).mpr ⟨h.isDir above, inner, named⟩]⟩

/-- The second name of a directory of the tree leads to the one that names it, that of the root to itself. -/
theorem Hierarchy.above (h : Hierarchy f g) (linked : Linked f g d) :
    ∃ p, g.edge d f.up = some p ∧ Linked f g p ∧ (d = f.root ∧ p = f.root ∨ Child f g p d) := by
  cases linked with
  | refl => exact ⟨f.root, h.top, .root, Or.inl ⟨rfl, rfl⟩⟩
  | tail above last =>
    obtain ⟨k, inner, named, isDir⟩ := last
    exact ⟨_, h.up _ k d above inner named isDir, above, Or.inr ⟨k, inner, named, isDir⟩⟩

theorem Hierarchy.path_unique (h : Hierarchy f g) (traverses : Traverses f g step) (isDir : g.isDir d)
    (found : follow step f.root p = some d) (found' : follow step f.root q = some d) : p = q := by
  have rootless : ∀ {q k}, follow step f.root (q ++ [k]) ≠ some f.root := by
    intro q k found
    obtain ⟨x, above, last⟩ := snoc_found found
    obtain ⟨directory, inner, named⟩ := (traverses x k f.root).mp last
    exact h.rootless x k (traverses.linked above directory) inner named
  induction p using List.reverseRecOn generalizing q d with
  | nil =>
    obtain rfl := Option.some.inj found
    cases q using List.reverseRecOn with
    | nil => rfl
    | append_singleton q k => exact absurd found' rootless
  | append_singleton p k ih =>
    cases q using List.reverseRecOn with
    | nil =>
      obtain rfl := Option.some.inj found'
      exact absurd found rootless
    | append_singleton q k' =>
      obtain ⟨x, above, last⟩ := snoc_found found
      obtain ⟨x', above', last'⟩ := snoc_found found'
      obtain ⟨directory, inner, named⟩ := (traverses x k d).mp last
      obtain ⟨directory', inner', named'⟩ := (traverses x' k' d).mp last'
      obtain ⟨rfl, rfl⟩ := h.unique x k x' k' d (traverses.linked above directory) (traverses.linked above' directory') inner inner'
        named named' isDir
      rw [ih directory above above']

/-- What is no directory has as many paths as names. -/
theorem Hierarchy.card_paths (h : Hierarchy f g) (traverses : Traverses f g step) (file : ¬ g.isDir i) :
    {p | follow step f.root p = some i}.ncard = count f g i := by
  have path : ∀ n ∈ naming (Linked f g) g.edge i, ∃ p, follow step f.root p = some n.1 := fun n named => h.path traverses named.1
  have inner : ∀ n ∈ naming (Linked f g) g.edge i, f.Inner n.2 := by
    intro n named
    obtain ⟨linked, edge⟩ := named
    refine ⟨fun self => file ?_, fun up => file ?_⟩
    · rw [self, h.self n.1 linked] at edge
      exact Option.some.inj edge ▸ h.isDir linked
    · obtain ⟨p, upward, above, -⟩ := h.above linked
      rw [up, upward] at edge
      exact Option.some.inj edge ▸ h.isDir above
  unfold count
  symm
  apply Set.ncard_congr fun n named => (path n named).choose ++ [n.2]
  · intro n named
    show follow step f.root _ = some i
    rw [follow_named (path n named).choose_spec]
    exact (traverses n.1 n.2 i).mpr ⟨h.isDir named.1, inner n named, named.2⟩
  · intro n n' named named' same
    obtain ⟨above, last⟩ := List.append_inj' same rfl
    have found := (path n named).choose_spec
    rw [above, (path n' named').choose_spec] at found
    exact Prod.ext (Option.some.inj found).symm (List.singleton_inj.mp last)
  · intro q found
    cases q using List.reverseRecOn with
    | nil => exact absurd (Option.some.inj found ▸ h.root) file
    | append_singleton q k =>
      obtain ⟨x, above, last⟩ := snoc_found found
      obtain ⟨directory, inside, named⟩ := (traverses x k i).mp last
      have member : (x, k) ∈ naming (Linked f g) g.edge i := ⟨traverses.linked above directory, named⟩
      refine ⟨(x, k), member, ?_⟩
      rw [h.path_unique traverses directory (path _ member).choose_spec above]

/-- A directory has its two names, and one more for each directory in it. -/
theorem Hierarchy.count_dir (h : Hierarchy f g) (linked : Linked f g d) : count f g d = {c | Child f g d c}.ncard + 2 := by
  obtain ⟨top, namesTop, own, notUp, only⟩ : ∃ top : V × K, top ∈ naming (Linked f g) g.edge d ∧ top.2 ≠ f.self ∧
      (∀ c, Child f g d c → top ≠ (c, f.up)) ∧
        ∀ n ∈ naming (Linked f g) g.edge d, n.2 ≠ f.self → n = top ∨ ∃ c, Child f g d c ∧ n = (c, f.up) := by
    have upward : ∀ n ∈ naming (Linked f g) g.edge d, n.2 = f.up → n = (f.root, f.up) ∧ d = f.root ∨
        ∃ c, Child f g d c ∧ n = (c, f.up) := by
      intro n named up
      obtain ⟨p, edge, -, root | child⟩ := h.above named.1
      · rw [← up, named.2] at edge
        exact Or.inl ⟨Prod.ext root.1 up, (Option.some.inj edge).trans root.2⟩
      · rw [← up, named.2] at edge
        obtain rfl := Option.some.inj edge
        exact Or.inr ⟨n.1, child, Prod.ext rfl up⟩
    cases linked with
    | refl =>
      refine ⟨(f.root, f.up), ⟨.root, h.top⟩, f.differ.symm, ?_, ?_⟩
      · rintro c ⟨k, inner, named, -⟩ same
        obtain rfl := (Prod.mk.inj same).1
        exact h.rootless f.root k .root inner named
      · intro n named other
        by_cases up : n.2 = f.up
        · exact (upward n named up).imp And.left id
        · exact absurd named.2 (h.rootless n.1 n.2 named.1 ⟨other, up⟩)
    | @tail p d above last =>
      obtain ⟨k, inner, edge, isDir⟩ := last
      refine ⟨(p, k), ⟨above, edge⟩, inner.1, fun c _ same => inner.2 (Prod.mk.inj same).2, fun n named other => ?_⟩
      by_cases up : n.2 = f.up
      · refine (upward n named up).imp (fun root => ?_) id
        exact absurd (root.2 ▸ edge) (h.rootless p k above inner)
      · obtain ⟨same, name⟩ := h.unique n.1 n.2 p k d named.1 above ⟨other, up⟩ inner named.2 edge isDir
        exact Or.inl (Prod.ext same name)
  have self : (d, f.self) ∈ naming (Linked f g) g.edge d := ⟨linked, h.self d linked⟩
  have children : ∀ n ∈ (fun c => (c, f.up)) '' {c | Child f g d c}, n ∈ naming (Linked f g) g.edge d := by
    rintro n ⟨c, ⟨k, inner, named, isDir⟩, rfl⟩
    exact ⟨linked.child inner named isDir, h.up d k c linked inner named isDir⟩
  have split : naming (Linked f g) g.edge d = insert (d, f.self) (insert top ((fun c => (c, f.up)) '' {c | Child f g d c})) := by
    ext n
    constructor
    · intro named
      by_cases here : n.2 = f.self
      · have edge := named.2
        rw [here, h.self n.1 named.1] at edge
        exact Or.inl (Prod.ext (Option.some.inj edge) here)
      · rcases only n named here with same | ⟨c, child, same⟩
        · exact Or.inr (Or.inl same)
        · exact Or.inr (Or.inr ⟨c, child, same.symm⟩)
    · rintro (rfl | rfl | child)
      · exact self
      · exact namesTop
      · exact children n child
  have finite : (naming (Linked f g) g.edge d).Finite := h.finite.subset fun n named => ⟨named.1, by rw [named.2]; rfl⟩
  have some := finite.subset children
  have apart : top ∉ (fun c => (c, f.up)) '' {c | Child f g d c} := by
    rintro ⟨c, child, same⟩
    exact notUp c child same.symm
  have alone : (d, f.self) ∉ insert top ((fun c => (c, f.up)) '' {c | Child f g d c}) := by
    rintro (same | ⟨c, child, same⟩)
    · exact own (congrArg Prod.snd same).symm
    · exact f.differ (Prod.mk.inj same).2.symm
  unfold count
  rw [split, Set.ncard_insert_of_notMem alone (some.insert top), Set.ncard_insert_of_notMem apart some,
    Set.ncard_image_of_injective _ fun c c' same => (Prod.mk.inj same).1]

end Hierarchies
