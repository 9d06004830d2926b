import Mathlib.Data.Option.Basic

/-!
# Tables — trees of tables in a heap

A heap of tables maps every frame and index to an entry; an entry either is empty or links to
another frame.  Trees of tables (page tables, say) are described by labels and not by shapes:

* `owner f = some l` says that the table in frame `f` has the role `l`;
* `next l p` is the role a table must have to be linked from index `p` of a table with the role
  `l`; where it is `none` the entries are data;
* `Linked` says that every entry between roles is empty or links to a table with the right role.

Since `owner` is a function, tables with different roles are different frames: separation needs no
statement of its own.  Attaching an empty table and writing a data entry keep `Linked`, and
`read_attach`, `read_set` say what they change for a reader that walks down from a root.
-/

namespace SigmaOS.Lib

universe u v w z

/-- How links are stored in entries. -/
structure LinkFormat (F : Type u) (E : Type v) where
  empty : E
  link : F → E
  child : E → Option F
  child_empty : child empty = none
  child_link : ∀ f, child (link f) = some f

abbrev Tables (F : Type u) (I : Type w) (E : Type v) := F → I → E

variable {F : Type u} {E : Type v} {I : Type w} {L : Type z}

/-! ## Reading -/

/-- The frame reached from `f` along the indices `path`. -/
def walk (fmt : LinkFormat F E) (m : Tables F I E) : F → List I → Option F
  | f, [] => some f
  | f, p :: path =>
    match fmt.child (m f p) with
    | none => none
    | some g => walk fmt m g path

/-- The entry at index `i` of the table reached along `path`; `empty` when there is no such table. -/
def readAt (fmt : LinkFormat F E) (m : Tables F I E) (f : F) (path : List I) (i : I) : E :=
  match walk fmt m f path with
  | none => fmt.empty
  | some g => m g i

section Read

variable {fmt : LinkFormat F E} {m : Tables F I E} {f g : F} {p i : I} {path : List I}

lemma walk_cons_empty (h : m f p = fmt.empty) : walk fmt m f (p :: path) = none := by
  simp [walk, h, fmt.child_empty]

lemma walk_cons_link (h : m f p = fmt.link g) : walk fmt m f (p :: path) = walk fmt m g path := by
  simp [walk, h, fmt.child_link]

lemma walk_cons_some (h : walk fmt m f (p :: path) = some g) :
    ∃ x, fmt.child (m f p) = some x ∧ walk fmt m x path = some g := by
  unfold walk at h
  split at h
  · cases h
  next x hc =>
  exact ⟨x, hc, h⟩

lemma walk_cons_congr {m' : Tables F I E} (hentry : m' f p = m f p)
    (hrest : ∀ g, fmt.child (m f p) = some g → walk fmt m' g path = walk fmt m g path) :
    walk fmt m' f (p :: path) = walk fmt m f (p :: path) := by
  cases hc : fmt.child (m f p) with
  | none => simp [walk, hentry, hc]
  | some g => simpa [walk, hentry, hc] using hrest g hc

lemma readAt_of_walk (h : walk fmt m f path = some g) : readAt fmt m f path i = m g i := by
  simp [readAt, h]

lemma readAt_of_none (h : walk fmt m f path = none) : readAt fmt m f path i = fmt.empty := by
  simp [readAt, h]

lemma readAt_nil : readAt fmt m f [] i = m f i :=
  rfl

lemma readAt_cons_empty (h : m f p = fmt.empty) : readAt fmt m f (p :: path) i = fmt.empty := by
  simp [readAt, walk_cons_empty h]

lemma readAt_cons_link (h : m f p = fmt.link g) :
    readAt fmt m f (p :: path) i = readAt fmt m g path i := by
  simp [readAt, walk_cons_link h]

lemma walk_append {rest : List I} :
    walk fmt m f (path ++ rest) = (walk fmt m f path).bind fun g => walk fmt m g rest := by
  induction path generalizing f with
  | nil => rfl
  | cons p path ih =>
    cases hc : fmt.child (m f p) with
    | none => simp [walk, hc]
    | some x => simpa [walk, hc] using ih

lemma walk_snoc {x : F} (hg : m g p = fmt.link f) (h : walk fmt m x path = some g) :
    walk fmt m x (path ++ [p]) = some f := by
  rw [walk_append, h, Option.bind_some, walk_cons_link hg]
  rfl

lemma readAt_blank (h : ∀ p, m f p = fmt.empty) : readAt fmt m f path i = fmt.empty := by
  cases path with
  | nil => exact h i
  | cons p path => exact readAt_cons_empty (h p)

end Read

namespace Tables

section

variable [DecidableEq F]

def blank (fmt : LinkFormat F E) (m : Tables F I E) (g : F) : Tables F I E :=
  Function.update m g fun _ => fmt.empty

variable {fmt : LinkFormat F E} {m : Tables F I E} {g x : F} {q : I}

@[simp] lemma blank_same : m.blank fmt g g q = fmt.empty := by
  simp [blank]

lemma blank_of_ne (h : x ≠ g) : m.blank fmt g x = m x := by
  simp [blank, h]

end

variable [DecidableEq F] [DecidableEq I]

def set (m : Tables F I E) (f : F) (p : I) (e : E) : Tables F I E :=
  Function.update m f (Function.update (m f) p e)

/-- A new table without entries in frame `g`, linked from index `p` of the table in `f`. -/
def attach (fmt : LinkFormat F E) (m : Tables F I E) (f : F) (p : I) (g : F) :
    Tables F I E :=
  (m.blank fmt g).set f p (fmt.link g)

variable {fmt : LinkFormat F E} {m : Tables F I E} {f g x : F} {p q : I} {e : E}

@[simp] lemma set_same : m.set f p e f p = e := by
  simp [set]

lemma set_of_ne_index (h : q ≠ p) : m.set f p e f q = m f q := by
  simp [set, h]

lemma set_of_ne (h : x ≠ f) : m.set f p e x = m x := by
  simp [set, h]

lemma set_apply (hother : ¬ (x = f ∧ q = p)) : m.set f p e x q = m x q := by
  by_cases hx : x = f
  · subst hx
    exact set_of_ne_index fun hq => hother ⟨rfl, hq⟩
  · rw [set_of_ne hx]

@[simp] lemma attach_same : m.attach fmt f p g f p = fmt.link g := by
  simp [attach]

lemma attach_of_ne_index (hfg : f ≠ g) (h : q ≠ p) : m.attach fmt f p g f q = m f q := by
  rw [attach, set_of_ne_index h, blank_of_ne hfg]

lemma attach_new (hfg : f ≠ g) : m.attach fmt f p g g q = fmt.empty := by
  rw [attach, set_of_ne (Ne.symm hfg), blank_same]

lemma attach_of_ne (hx : x ≠ f) (hg : x ≠ g) : m.attach fmt f p g x = m x := by
  rw [attach, set_of_ne hx, blank_of_ne hg]

lemma attach_apply (hg : x ≠ g) (hother : ¬ (x = f ∧ q = p)) :
    m.attach fmt f p g x q = m x q := by
  by_cases hx : x = f
  · subst hx
    exact attach_of_ne_index hg fun hq => hother ⟨rfl, hq⟩
  · rw [attach_of_ne hx hg]

end Tables

/-! ## Roles -/

/-- Every entry between roles is empty or links to a table with the right role. -/
def Linked (fmt : LinkFormat F E) (next : L → I → Option L) (owner : F → Option L)
    (m : Tables F I E) : Prop :=
  ∀ f l p l', owner f = some l → next l p = some l' →
    m f p = fmt.empty ∨ ∃ g, m f p = fmt.link g ∧ owner g = some l'

/-- The role reached from `l` along `path`. -/
def roleAt (next : L → I → Option L) : L → List I → Option L
  | l, [] => some l
  | l, p :: path =>
    match next l p with
    | none => none
    | some l' => roleAt next l' path

variable {next : L → I → Option L} {l' : L} {p : I}

variable {l : L} {path : List I}

lemma roleAt_cons (h : roleAt next l (p :: path) = some l') :
    ∃ l₁, next l p = some l₁ ∧ roleAt next l₁ path = some l' := by
  unfold roleAt at h
  split at h
  · cases h
  next l₁ hnext =>
  exact ⟨l₁, hnext, h⟩

lemma roleAt_snoc {l'' : L} (hp : next l' p = some l'') (h : roleAt next l path = some l') :
    roleAt next l (path ++ [p]) = some l'' := by
  induction path generalizing l with
  | nil =>
    have hl : l = l' := by simpa [roleAt] using h
    simp [roleAt, hl, hp]
  | cons q path ih =>
    rcases roleAt_cons h with ⟨l₁, hnext, hl₁⟩
    simpa [roleAt, hnext] using ih hl₁

lemma roleAt_leads {k m : L} {q : I} {before : List I} (hpath : roleAt next l path = some k)
    (hpre : before ++ [q] <+: path) (hm : roleAt next l before = some m) : (next m q).isSome := by
  induction before generalizing path l with
  | nil =>
    have hlm : l = m := by simpa [roleAt] using hm
    rcases hpre with ⟨rest, rfl⟩
    rcases roleAt_cons hpath with ⟨l₁, hnext, _⟩
    rw [← hlm, hnext]
    rfl
  | cons p before ih =>
    rcases hpre with ⟨rest, rfl⟩
    rcases roleAt_cons hpath with ⟨l₁, hnext, hl₁⟩
    rcases roleAt_cons hm with ⟨l₂, hnext', hl₂⟩
    have hll : l₁ = l₂ := Option.some.inj (hnext.symm.trans hnext')
    exact ih hl₁ ⟨rest, rfl⟩ (hll ▸ hl₂)

lemma roleAt_kept (kept : L → Prop) (hclosed : ∀ l q l', kept l → next l q = some l' → kept l')
    (hl : kept l) (hrole : roleAt next l path = some l') : kept l' := by
  induction path generalizing l with
  | nil =>
    have hll : l = l' := by simpa [roleAt] using hrole
    exact hll ▸ hl
  | cons q path ih =>
    rcases roleAt_cons hrole with ⟨l₁, hnext, hl₁⟩
    exact ih (hclosed l q l₁ hl hnext) hl₁

namespace Linked

variable {fmt : LinkFormat F E} {next : L → I → Option L} {owner : F → Option L}
  {m m' : Tables F I E} {f g : F} {k k' l l' : L} {p i : I} {path : List I} {e : E}

lemma child_owner (h : Linked fmt next owner m) (hf : owner f = some l) (hl : next l p = some l')
    (hg : fmt.child (m f p) = some g) : m f p = fmt.link g ∧ owner g = some l' := by
  rcases h f l p l' hf hl with hempty | ⟨x, hlink, hx⟩
  · rw [hempty, fmt.child_empty] at hg
    exact absurd hg (by simp)
  · rw [hlink, fmt.child_link] at hg
    rw [← Option.some.inj hg]
    exact ⟨hlink, hx⟩

variable {path : List I} {f : F} {l : L}

section

variable (h : Linked fmt next owner m)
include h

/-- A walk ends in a table of the role the path leads to. -/
lemma walk_owner (hf : owner f = some l) (hl : roleAt next l path = some l')
    (hg : walk fmt m f path = some g) : owner g = some l' := by
  induction path generalizing f l with
  | nil =>
    have hfg : f = g := by simpa [walk] using hg
    have hll : l = l' := by simpa [roleAt] using hl
    rw [← hfg, ← hll]
    exact hf
  | cons p path ih =>
    rcases roleAt_cons hl with ⟨l₁, hnext, hl₁⟩
    rcases walk_cons_some hg with ⟨x, hx, hrest⟩
    exact ih (h.child_owner hf hnext hx).2 hl₁ hrest

/-- A walk survives writes that keep the links of owned tables. -/
lemma walk_mono
    (hkeep : ∀ x l q l' y, owner x = some l → next l q = some l' → m x q = fmt.link y →
      m' x q = fmt.link y)
    (hf : owner f = some l) (hl : roleAt next l path = some l') (hg : walk fmt m f path = some g) :
    walk fmt m' f path = some g := by
  induction path generalizing f l with
  | nil => exact hg
  | cons p path ih =>
    rcases roleAt_cons hl with ⟨l₁, hnext, hl₁⟩
    rcases walk_cons_some hg with ⟨x, hx, hrest⟩
    rcases h.child_owner hf hnext hx with ⟨hlink, hxrole⟩
    rw [walk_cons_link (hkeep f l p l₁ x hf hnext hlink)]
    exact ih hxrole hl₁ hrest

lemma walk_congr (kept : L → Prop) (hclosed : ∀ l q l', kept l → next l q = some l' → kept l')
    (hsame : ∀ x l q l', owner x = some l → kept l → next l q = some l' → m' x q = m x q)
    (hf : owner f = some l) (hkept : kept l) (hl : roleAt next l path = some l') :
    walk fmt m' f path = walk fmt m f path := by
  induction path generalizing f l with
  | nil => rfl
  | cons q path ih =>
    rcases roleAt_cons hl with ⟨l₁, hnext, hl₁⟩
    refine walk_cons_congr (hsame f l q l₁ hf hkept hnext) ?_
    intro g hg
    exact ih (h.child_owner hf hnext hg).2 (hclosed l q l₁ hkept hnext) hl₁

lemma readAt_congr (kept : L → Prop) (hclosed : ∀ l q l', kept l → next l q = some l' → kept l')
    (hsame : ∀ x l q, owner x = some l → kept l → m' x q = m x q) (hf : owner f = some l)
    (hkept : kept l) (hl : roleAt next l path = some l') :
    readAt fmt m' f path i = readAt fmt m f path i := by
  have hwalk : walk fmt m' f path = walk fmt m f path :=
    h.walk_congr kept hclosed (fun x k q _ hx hk _ => hsame x k q hx hk) hf hkept hl
  cases hg : walk fmt m f path with
  | none => rw [readAt_of_none hg, readAt_of_none (hwalk.trans hg)]
  | some g =>
    rw [readAt_of_walk hg, readAt_of_walk (hwalk.trans hg)]
    exact hsame g l' i (h.walk_owner hf hl hg) (roleAt_kept kept hclosed hkept hl)

end

lemma ne_of_owner (hf : owner f = some l) (hg : owner g = none) : f ≠ g := by
  rintro rfl
  rw [hg] at hf
  exact absurd hf (by simp)

lemma forget (h : Linked fmt next owner m) {owner' : F → Option L} (gone : L → Prop)
    (howner : ∀ f l, owner' f = some l ↔ owner f = some l ∧ ¬ gone l)
    (hclosed : ∀ l p l', ¬ gone l → next l p = some l' → ¬ gone l') : Linked fmt next owner' m := by
  intro f l p l' hf hl
  rcases (howner f l).1 hf with ⟨hf', hstay⟩
  rcases h f l p l' hf' hl with hempty | ⟨g, hlink, hg⟩
  · exact .inl hempty
  · exact .inr ⟨g, hlink, (howner g l').2 ⟨hg, hclosed l p l' hstay hl⟩⟩

section Write

variable [DecidableEq F] [DecidableEq I]

lemma set_data_apply {x : F} {q : I} (hf : owner f = some k) (hdata : next k p = none)
    (hx : owner x = some l) (hl : next l q = some l') : m.set f p e x q = m x q := by
  by_cases hxf : x = f
  · subst hxf
    have hkl : k = l := Option.some.inj (hf.symm.trans hx)
    subst hkl
    refine Tables.set_of_ne_index ?_
    rintro rfl
    rw [hdata] at hl
    exact absurd hl (by simp)
  · rw [Tables.set_of_ne hxf]

section

variable (h : Linked fmt next owner m) (hf : owner f = some k) (hdata : next k p = none)
include h hf hdata

lemma set_data : Linked fmt next owner (m.set f p e) := by
  intro x l q l' hx hl
  rw [set_data_apply hf hdata hx hl]
  exact h x l q l' hx hl

lemma walk_set_data {x : F} (hx : owner x = some l) (hl : roleAt next l path = some l') :
    walk fmt (m.set f p e) x path = walk fmt m x path :=
  h.walk_congr (fun _ => True) (fun _ _ _ _ _ => trivial)
    (fun _ _ _ _ hy _ hnext => set_data_apply hf hdata hy hnext) hx trivial hl

/-- A write at a table of another role or another slot is not read. -/
lemma readAt_set_data {x : F} (hx : owner x = some l) (hl : roleAt next l path = some l')
    (hother : l' = k → i ≠ p) : readAt fmt (m.set f p e) x path i = readAt fmt m x path i := by
  have hwalk := h.walk_set_data (e := e) hf hdata hx hl
  cases hg : walk fmt m x path with
  | none => simp [readAt, hwalk, hg]
  | some g =>
    have hgl := h.walk_owner hx hl hg
    have hentry : m.set f p e g i = m g i := by
      by_cases hgf : g = f
      · subst hgf
        exact Tables.set_of_ne_index (hother (Option.some.inj (hgl.symm.trans hf)))
      · rw [Tables.set_of_ne hgf]
    simp [readAt, hwalk, hg, hentry]

end

omit [DecidableEq I] in
/-- A fresh table blanked and given a role keeps the tables linked. -/
lemma blank (h : Linked fmt next owner m) (hg : owner g = none) :
    Linked fmt next (Function.update owner g (some l)) (m.blank fmt g) := by
  intro x k q k' hx hk
  by_cases hxg : x = g
  · subst hxg
    exact .inl Tables.blank_same
  · rw [Tables.blank_of_ne hxg]
    rw [Function.update_of_ne hxg] at hx
    rcases h x k q k' hx hk with hempty | ⟨y, hlink, hy⟩
    · exact .inl hempty
    · refine .inr ⟨y, hlink, ?_⟩
      rwa [Function.update_of_ne (ne_of_owner hy hg)]

/-- So does writing an empty entry or a link to a table of the right role. -/
lemma set_entry (h : Linked fmt next owner m) (hf : owner f = some l) (hl : next l p = some l')
    (he : e = fmt.empty ∨ ∃ g, e = fmt.link g ∧ owner g = some l') :
    Linked fmt next owner (m.set f p e) := by
  intro x k q k' hx hk
  by_cases hxf : x = f
  · subst hxf
    by_cases hqp : q = p
    · subst hqp
      have hkl : l = k := Option.some.inj (hf.symm.trans hx)
      have hkk : l' = k' := by
        rw [← hkl, hl] at hk
        exact Option.some.inj hk
      subst hkk
      rw [Tables.set_same]
      exact he
    · rw [Tables.set_of_ne_index hqp]
      exact h x k q k' hx hk
  · rw [Tables.set_of_ne hxf]
    exact h x k q k' hx hk

/-- Attaching an empty table where there was none changes no data a reader can see. -/
lemma readAt_attach (h : Linked fmt next owner m) (hf : owner f = some k)
    (hk : next k p = some k') (hempty : m f p = fmt.empty) (hg : owner g = none) :
    ∀ {path : List I} {x : F} {l : L}, owner x = some l → roleAt next l path = some l' →
      next l' i = none →
      readAt fmt (m.attach fmt f p g) x path i = readAt fmt m x path i := by
  have hfg := ne_of_owner hf hg
  intro path
  induction path with
  | nil =>
    intro x l hx hl hdata
    have hxg := ne_of_owner hx hg
    by_cases hxf : x = f
    · subst hxf
      have hkl : k = l := Option.some.inj (hf.symm.trans hx)
      have hll : l = l' := by simpa [roleAt] using hl
      have hip : i ≠ p := by
        rintro rfl
        rw [← hll, ← hkl, hk] at hdata
        exact absurd hdata (by simp)
      rw [readAt_nil, readAt_nil, Tables.attach_of_ne_index hfg hip]
    · rw [readAt_nil, readAt_nil, Tables.attach_of_ne hxf hxg]
  | cons q path ih =>
    intro x l hx hl hdata
    rcases roleAt_cons hl with ⟨l₁, hnext, hl₁⟩
    have hxg := ne_of_owner hx hg
    by_cases hnew : x = f ∧ q = p
    · -- the reader meets the new table: there is nothing to read on either side
      rcases hnew with ⟨rfl, rfl⟩
      rw [readAt_cons_link Tables.attach_same, readAt_cons_empty hempty]
      exact readAt_blank fun r => Tables.attach_new hfg
    · have hsame : m.attach fmt f p g x q = m x q := Tables.attach_apply hxg hnew
      rcases h x l q l₁ hx hnext with hnone | ⟨y, hlink, hy⟩
      · rw [readAt_cons_empty hnone, readAt_cons_empty (hsame.trans hnone)]
      · rw [readAt_cons_link hlink, readAt_cons_link (hsame.trans hlink)]
        exact ih hy hl₁ hdata

/-- Attaching a fresh table at an empty slot keeps every walk. -/
lemma walk_attach (h : Linked fmt next owner m) (hempty : m f p = fmt.empty) (hg : owner g = none)
    {x y : F} (hx : owner x = some l) (hl : roleAt next l path = some l')
    (hwalk : walk fmt m x path = some y) : walk fmt (m.attach fmt f p g) x path = some y := by
  refine h.walk_mono ?_ hx hl hwalk
  intro z k q _ w hz _ hlink
  have hzg := ne_of_owner hz hg
  by_cases hzf : z = f
  · subst hzf
    have hqp : q ≠ p := by
      rintro rfl
      have hcontra := fmt.child_link w
      rw [← hlink, hempty, fmt.child_empty] at hcontra
      exact absurd hcontra (by simp)
    rw [Tables.attach_of_ne_index hzg hqp, hlink]
  · rw [Tables.attach_of_ne hzf hzg, hlink]

end Write

end Linked

/-- In a tree with `depth` levels above the data, the role of a table is the path that leads to
it. -/
def treeNext (depth : Nat) (path : List I) (p : I) : Option (List I) :=
  if path.length < depth then some (path ++ [p]) else none

end SigmaOS.Lib
