import Mathlib.Data.List.Nodup
import Mathlib.Order.Basic
import SigmaOS.Lib.Tables

/-!
# TableTree — a tree of tables that grows from one root

In a `Tree` the role of a table is the path that leads to it from the root, and every table that has
a role is reached along it.  Attaching a table to an empty entry and writing a data entry keep the
tree; `subtree` lists the tables below a table in the order of a walk that comes back to a table after
those below it, and in a tree that list has every table with a role exactly once.
-/

namespace SigmaOS.Lib

open Function List

universe u v w

variable {F : Type u} {E : Type v} {I : Type w}

/-! ## Trees -/

/-- The tables with a role are the tables of a tree with `depth` levels above the data. -/
structure Tree (fmt : LinkFormat F E) (depth : Nat) (root : F) (owner : F → Option (List I))
    (m : Tables F I E) : Prop where
  linked : Linked fmt (treeNext depth) owner m
  root_role : owner root = some []
  short : ∀ f path, owner f = some path → path.length ≤ depth
  reach : ∀ f path, owner f = some path → walk fmt m root path = some f

variable {depth : Nat} {path : List I} {p : I}

lemma treeNext_of_lt (h : path.length < depth) : treeNext depth path p = some (path ++ [p]) := by
  simp [treeNext, h]

lemma treeNext_of_le (h : depth ≤ path.length) : treeNext depth path p = none := by
  simp [treeNext, Nat.not_lt.2 h]

lemma roleAt_treeNext {path start : List I} (h : start.length + path.length ≤ depth) :
    roleAt (treeNext depth) start path = some (start ++ path) := by
  induction path generalizing start with
  | nil => simp [roleAt]
  | cons p path ih =>
    have hlen : start.length + (path.length + 1) ≤ depth := by simpa using h
    have hrest : (start ++ [p]).length + path.length ≤ depth := by
      rw [length_append, length_singleton]
      omega
    have hlt : start.length < depth := by omega
    simpa [roleAt, treeNext_of_lt hlt] using ih hrest

namespace Tree

variable {fmt : LinkFormat F E} {depth : Nat} {root : F} {owner : F → Option (List I)}
  {m : Tables F I E} {f g : F} {path : List I} {p i : I} {e : E}

lemma role_of_walk (h : Tree fmt depth root owner m) {start : List I} (hf : owner f = some start)
    (hlen : start.length + path.length ≤ depth) (hwalk : walk fmt m f path = some g) :
    owner g = some (start ++ path) :=
  h.linked.walk_owner hf (roleAt_treeNext hlen) hwalk

section Grow

variable [DecidableEq F]

/-- A blank root is a tree. -/
lemma single (hblank : ∀ p, m root p = fmt.empty) :
    Tree fmt depth root (update (fun _ => none) root (some [])) m := by
  have honly : ∀ f path, update (fun _ => none) root (some []) f = some path →
      f = root ∧ path = ([] : List I) := by
    intro f path hf
    by_cases hfr : f = root
    · subst hfr
      rw [update_self] at hf
      exact ⟨rfl, (Option.some.inj hf).symm⟩
    · rw [update_of_ne hfr] at hf
      exact absurd hf (by simp)
  refine ⟨?_, update_self _ _ _, ?_, ?_⟩
  · intro f l p l' hf _
    rw [(honly f l hf).1]
    exact .inl (hblank p)
  · intro f path hf
    rw [(honly f path hf).2]
    exact Nat.zero_le depth
  · intro f path hf
    rw [(honly f path hf).1, (honly f path hf).2]
    rfl

variable [DecidableEq I]

section

variable (h : Tree fmt depth root owner m) (hf : owner f = some path)
include h hf

/-- A blank table is attached at an empty entry. -/
lemma attach (hlen : path.length < depth) (hempty : m f p = fmt.empty) (hg : owner g = none) :
    Tree fmt depth root (update owner g (some (path ++ [p]))) (m.attach fmt f p g) := by
  have hkept : ∀ x l, owner x = some l → update owner g (some (path ++ [p])) x = some l := by
    intro x l hx
    rwa [update_of_ne (Linked.ne_of_owner hx hg)]
  have hwalks : ∀ x l, owner x = some l → walk fmt (m.attach fmt f p g) root l = some x := by
    intro x l hx
    have hshort : ([] : List I).length + l.length ≤ depth := by simpa using h.short x l hx
    exact h.linked.walk_attach hempty hg h.root_role (roleAt_treeNext hshort) (h.reach x l hx)
  refine ⟨?_, hkept root [] h.root_role, ?_, ?_⟩
  · exact (h.linked.blank hg).set_entry (hkept f path hf) (treeNext_of_lt hlen)
      (.inr ⟨g, rfl, update_self _ _ _⟩)
  · intro x l hx
    by_cases hxg : x = g
    · subst hxg
      rw [update_self] at hx
      rw [← Option.some.inj hx, length_append]
      exact hlen
    · rw [update_of_ne hxg] at hx
      exact h.short x l hx
  · intro x l hx
    by_cases hxg : x = g
    · subst hxg
      rw [update_self] at hx
      rw [← Option.some.inj hx]
      exact walk_snoc Tables.attach_same (hwalks f path hf)
    · rw [update_of_ne hxg] at hx
      exact hwalks x l hx

lemma readAt_attach (hlen : path.length < depth) (hempty : m f p = fmt.empty)
    (hg : owner g = none) {rest : List I} (hrest : rest.length = depth) :
    readAt fmt (m.attach fmt f p g) root rest i = readAt fmt m root rest i := by
  have hshort : ([] : List I).length + rest.length ≤ depth := by simp [hrest]
  exact h.linked.readAt_attach hf (treeNext_of_lt hlen) hempty hg h.root_role
    (roleAt_treeNext hshort) (treeNext_of_le (by simp [hrest]))

lemma set_data (hlen : path.length = depth) : Tree fmt depth root owner (m.set f p e) := by
  have hdata : treeNext depth path p = none := treeNext_of_le (Nat.le_of_eq hlen.symm)
  refine ⟨h.linked.set_data hf hdata, h.root_role, h.short, ?_⟩
  intro x l hx
  have hshort : ([] : List I).length + l.length ≤ depth := by simpa using h.short x l hx
  rw [h.linked.walk_set_data hf hdata h.root_role (roleAt_treeNext hshort)]
  exact h.reach x l hx

lemma readAt_set_same (hlen : path.length = depth) :
    readAt fmt (m.set f p e) root path p = e := by
  rw [readAt_of_walk ((h.set_data hf hlen).reach f path hf), Tables.set_same]

lemma readAt_set_other (hlen : path.length = depth) {rest : List I} (hrest : rest.length = depth)
    (hother : rest = path → i ≠ p) :
    readAt fmt (m.set f p e) root rest i = readAt fmt m root rest i := by
  have hdata : treeNext depth path p = none := treeNext_of_le (Nat.le_of_eq hlen.symm)
  have hshort : ([] : List I).length + rest.length ≤ depth := by simp [hrest]
  exact h.linked.readAt_set_data hf hdata h.root_role (roleAt_treeNext hshort) hother

end

end Grow

end Tree

/-! ## Listing a tree -/

/-- The tables up to `levels` levels below the table in `f`, each of them after those below it. -/
def subtree (fmt : LinkFormat F E) (m : Tables F I E) (indices : List I) : Nat → F → List F
  | 0, _ => []
  | levels + 1, f =>
    indices.flatMap fun i =>
      match fmt.child (m f i) with
      | none => []
      | some g => subtree fmt m indices levels g ++ [g]

/-- What is behind the entry `i` of the table in `f`: the table there, after what is `below` it. -/
def behind (fmt : LinkFormat F E) (m : Tables F I E) (below : F → List F) (f : F) (i : I) : List F :=
  match fmt.child (m f i) with
  | none => []
  | some g => below g ++ [g]

section Subtree

variable {fmt : LinkFormat F E} {m : Tables F I E} {indices : List I} {depth levels : Nat}
  {root f g x : F} {owner : F → Option (List I)} {path : List I} {i : I} {below : F → List F}

lemma subtree_succ :
    subtree fmt m indices (levels + 1) f =
      indices.flatMap (behind fmt m (subtree fmt m indices levels) f) :=
  rfl

lemma mem_behind :
    x ∈ behind fmt m below f i ↔ ∃ g, fmt.child (m f i) = some g ∧ (x ∈ below g ∨ x = g) := by
  cases hchild : fmt.child (m f i) with
  | none => simp [behind, hchild]
  | some g => simp [behind, hchild]

lemma mem_behind_walk (hbelow : ∀ g, x ∈ below g ↔
      ∃ j path, path.length < levels ∧ walk fmt m g (j :: path) = some x) :
    x ∈ behind fmt m below f i ↔
      ∃ path, path.length < levels + 1 ∧ walk fmt m f (i :: path) = some x := by
  rw [mem_behind]
  constructor
  · rintro ⟨g, hchild, hx | rfl⟩
    · rcases (hbelow g).1 hx with ⟨j, path, hlen, hwalk⟩
      exact ⟨j :: path, Nat.succ_lt_succ hlen, by simpa [walk, hchild] using hwalk⟩
    · exact ⟨[], Nat.succ_pos levels, by simp [walk, hchild]⟩
  · rintro ⟨path, hlen, hwalk⟩
    rcases walk_cons_some hwalk with ⟨g, hchild, hrest⟩
    refine ⟨g, hchild, ?_⟩
    cases path with
    | nil => exact .inr (by simpa [walk] using hrest.symm)
    | cons j path => exact .inl ((hbelow g).2 ⟨j, path, Nat.lt_of_succ_lt_succ hlen, hrest⟩)

lemma mem_subtree (hall : ∀ i, i ∈ indices) :
    x ∈ subtree fmt m indices levels f ↔
      ∃ i path, path.length < levels ∧ walk fmt m f (i :: path) = some x := by
  induction levels generalizing f with
  | zero => simp [subtree]
  | succ levels ih =>
    rw [subtree_succ, mem_flatMap]
    refine exists_congr fun i => ?_
    rw [mem_behind_walk fun g => ih, and_iff_right (hall i)]

/-- Tables whose roles are the ways to them: no table is behind two entries, and the table in `f` is
behind none. -/
lemma Linked.nodup_behind {L : Type*} {next : L → I → Option L} {owner : F → Option L}
    {place : List I → L} (hlinked : Linked fmt next owner m) (hplace : Function.Injective place)
    (hf : owner f = some (place path))
    (hnext : ∀ i ∈ indices, next (place path) i = some (place (path ++ [i])))
    (hindices : indices.Nodup) (hrole : ∀ i ∈ indices, ∀ g, owner g = some (place (path ++ [i])) →
      ∀ x ∈ below g, ∃ j rest, owner x = some (place (path ++ [i] ++ j :: rest)))
    (hbelow : ∀ i ∈ indices, ∀ g, owner g = some (place (path ++ [i])) → (below g ++ [g]).Nodup) :
    (indices.flatMap (behind fmt m below f) ++ [f]).Nodup := by
  -- what is behind entry `i` has a role that goes on with `i`
  have hbehind : ∀ i ∈ indices, ∀ x ∈ behind fmt m below f i,
      ∃ rest, owner x = some (place (path ++ i :: rest)) := by
    intro i hi x hx
    rcases mem_behind.1 hx with ⟨g, hchild, hxg⟩
    have hg := (hlinked.child_owner hf (hnext i hi) hchild).2
    rcases hxg with hxg | rfl
    · rcases hrole i hi g hg x hxg with ⟨j, rest, hx'⟩
      exact ⟨j :: rest, by simpa using hx'⟩
    · exact ⟨[], hg⟩
  have hsame : ∀ {x way way'}, owner x = some (place (path ++ way)) →
      owner x = some (place (path ++ way')) → way = way' := by
    intro x way way' hway hway'
    exact append_cancel_left (hplace (Option.some.inj (hway.symm.trans hway')))
  refine nodup_append.2 ⟨nodup_flatMap.2 ⟨?_, ?_⟩, nodup_singleton f, ?_⟩
  · intro i hi
    cases hchild : fmt.child (m f i) with
    | none => simp [behind, hchild]
    | some g =>
      simpa only [behind, hchild] using hbelow i hi g (hlinked.child_owner hf (hnext i hi) hchild).2
  · refine hindices.imp_of_mem ?_
    intro i j hi hj hij x hxi hxj
    rcases hbehind i hi x hxi with ⟨rest, hx⟩
    rcases hbehind j hj x hxj with ⟨rest', hx'⟩
    exact hij (List.cons.inj (hsame hx hx')).1
  · intro x hx y hy hxy
    rw [mem_singleton.1 hy] at hxy
    subst hxy
    rcases mem_flatMap.1 hx with ⟨i, hi, hx⟩
    rcases hbehind i hi x hx with ⟨rest, hx'⟩
    have hnil : owner x = some (place (path ++ [])) := by rwa [append_nil]
    exact cons_ne_nil i rest (hsame hx' hnil)

namespace Tree

section

variable (h : Tree fmt depth root owner m) (hall : ∀ i, i ∈ indices)
include h hall

lemma role_of_mem_subtree (hf : owner f = some path) (hlen : path.length + levels ≤ depth)
    (hx : x ∈ subtree fmt m indices levels f) : ∃ i rest, owner x = some (path ++ i :: rest) := by
  rcases (mem_subtree hall).1 hx with ⟨i, rest, hrest, hwalk⟩
  refine ⟨i, rest, h.role_of_walk hf ?_ hwalk⟩
  rw [length_cons]
  omega

/-- A subtree lists each table once. -/
lemma subtree_nodup (hindices : indices.Nodup) {levels : Nat} {f : F} {path : List I}
    (hf : owner f = some path) (hlen : path.length + levels ≤ depth) :
    (subtree fmt m indices levels f ++ [f]).Nodup := by
  induction levels generalizing f path with
  | zero => exact nodup_singleton f
  | succ levels ih =>
    have hlen' : ∀ i : I, (path ++ [i]).length + levels ≤ depth := by
      intro i
      rw [length_append, length_singleton]
      omega
    have hlt : path.length < depth := by omega
    exact h.linked.nodup_behind (injective_id (α := List I)) hf
      (fun i _ => treeNext_of_lt hlt) hindices
      (fun i _ g hg x hx => h.role_of_mem_subtree hall hg (hlen' i) hx)
      fun i _ g hg => ih hg (hlen' i)

/-- The root's subtree lists exactly the owned tables. -/
lemma mem_subtree_root :
    x ∈ subtree fmt m indices depth root ++ [root] ↔ ∃ path, owner x = some path := by
  rw [mem_append, mem_singleton]
  constructor
  · rintro (hx | rfl)
    · rcases h.role_of_mem_subtree hall h.root_role (by simp) hx with ⟨i, rest, hrole⟩
      exact ⟨_, hrole⟩
    · exact ⟨[], h.root_role⟩
  · rintro ⟨path, hx⟩
    cases path with
    | nil => exact .inr (by simpa [walk] using (h.reach x [] hx).symm)
    | cons i rest => exact .inl ((mem_subtree hall).2 ⟨i, rest, h.short x _ hx, h.reach x _ hx⟩)

end

end Tree

end Subtree

end SigmaOS.Lib
