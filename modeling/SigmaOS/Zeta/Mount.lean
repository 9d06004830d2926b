import Mathlib.Data.List.TakeWhile
import SigmaOS.Zeta.Path

/-!
# Zeta.Mount — which file system a path belongs to

`get_mountpoint` searches the mount list for the longest name that is a prefix of the absolute path
and ends where a component ends.  The local path, which the file system gets, is then cut out of the
path that was asked for, not out of the absolute one, and where nothing is left of it the code
writes over the terminator of an empty string.  The mount's `fs_calls` are a number.  An offset
behind the end of a string (`substr` throws) and the write over the terminator (undefined) give
`none`.
-/

namespace SigmaOS.Zeta

open List

/-- `vfs_entry`, with the fields that are used here. -/
structure Mount where
  name : List Char
  fs : Nat
  deriving DecidableEq

def nul : Char := Char.ofNat 0

/-- The name is found at the start of the absolute path, and a component ends with it. -/
def atMount (absolute : List Char) (m : Mount) : Bool :=
  !decide (absolute.length < m.name.length) && decide (absolute.take m.name.length = m.name) &&
    (decide (absolute.getD m.name.length nul = '/') || decide (absolute.getD m.name.length nul = nul) ||
      -- `strcmp` looks at the name up to its first zero
      decide (m.name.takeWhile (· ≠ nul) = ['/']))

def guessSize (guess : Option Mount) : Nat :=
  match guess with
  | none => 0
  | some m => m.name.length

def guessStep (absolute : List Char) (guess : Option Mount) (m : Mount) : Option Mount :=
  if atMount absolute m ∧ guessSize guess < m.name.length then some m else guess

def cutLocal (path : List Char) (size : Nat) : Option (List Char) :=
  if 1 < size then
    if size ≤ path.length then some (path.drop size) else none
  else
    some path

/-- `out_local_path[0]` is replaced where it is zero; there is none in the empty string. -/
def fillLocal (localPath : List Char) : Option (List Char) :=
  match localPath with
  | [] => none
  | c :: cs => some ((if c = nul then '/' else c) :: cs)

/-- `get_mountpoint`: the file system, if there is one, and `out_local_path`. -/
def getMountpoint (mounts : List Mount) (cwd path : List Char) :
    Option (Option Nat × List Char) :=
  (makePathAbsolute cwd path).bind fun absolute =>
    let guess := mounts.foldl (guessStep absolute) none
    (cutLocal path (guessSize guess)).bind fun localPath =>
      (fillLocal localPath).map fun localPath => (guess.map Mount.fs, localPath)

/-! ## What a request should give -/

/-- `/`, or a normalised absolute path. -/
def IsMountName (name : List Char) : Prop :=
  name = ['/'] ∨ ∃ parts, parts ≠ [] ∧ (∀ part ∈ parts, IsPart part ∧ Ordinary part) ∧
    name = render parts

def Covers (m : Mount) (path : List Char) : Prop :=
  components m.name <+: components path

/-- The mount has the longest name of those that cover the path. -/
structure Best (mounts : List Mount) (path : List Char) (m : Mount) : Prop where
  mem : m ∈ mounts
  covers : Covers m path
  longest : ∀ m' ∈ mounts, Covers m' path → m'.name.length ≤ m.name.length

/-- The components behind the mount's name, with a leading separator. -/
def localPath (m : Mount) (path : List Char) : List Char :=
  if (components path).drop (components m.name).length = [] then
    ['/']
  else
    render ((components path).drop (components m.name).length)

/-- The request is answered with the best mount for the normal form and the local path in it, or with
null if no mount covers the normal form. -/
def Resolves (mounts : List Mount) (cwd path : List Char) : Prop :=
  ∃ fs out, getMountpoint mounts cwd path = some (fs, out) ∧
    ((fs = none ∧ ∀ m ∈ mounts, ¬ Covers m (normalForm path)) ∨
      ∃ m, Best mounts (normalForm path) m ∧ fs = some m.fs ∧ out = localPath m (normalForm path))

/-- The name is found in front of the path, but does not end where a component ends: the character
behind it is zero, or `strcmp` takes the name for `/`. -/
def Strays (m : Mount) (path : List Char) : Prop :=
  ∃ c rest, path = m.name ++ c :: rest ∧ c ≠ '/' ∧ m.name ≠ ['/'] ∧
    (c = nul ∨ m.name.takeWhile (· ≠ nul) = ['/'])

/-- Every mount that strays has a shorter name than one that covers the path. -/
def Sighted (mounts : List Mount) (path : List Char) : Prop :=
  ∀ m ∈ mounts, Strays m path → ∃ m' ∈ mounts, Covers m' path ∧ m.name.length < m'.name.length

/-- No mount that strays counts; and no mount covers the path, or it is not the root, and it is written
in its normal form and goes on behind the name of the best mount, or is that name with one separator
behind it.  A zero byte does as well as the separator, behind as many characters as the name has. -/
def Plain (mounts : List Mount) (path : List Char) : Prop :=
  Sighted mounts (normalForm path) ∧
    ((∀ m ∈ mounts, ¬ Covers m (normalForm path)) ∨
      ∃ m, Best mounts (normalForm path) m ∧ normalForm path ≠ [] ∧
        if normalForm path = m.name then
          path = normalForm path ++ ['/'] ∨
            ∃ front, path = front ++ [nul] ∧ front.length = (normalForm path).length
        else path = normalForm path)

section Texts

lemma render_cons (part : Part) (parts : List Part) :
    render (part :: parts) = '/' :: (part ++ render parts) := by
  simp [render]

lemma render_append (parts parts' : List Part) :
    render (parts ++ parts') = render parts ++ render parts' := by
  simp [render]

lemma render_eq_cons {parts : List Part} (h : parts ≠ []) : ∃ cs, render parts = '/' :: cs := by
  cases parts with
  | nil => exact absurd rfl h
  | cons part parts => exact ⟨_, render_cons part parts⟩

/-- Splitting at a slash. -/
lemma splitPath_append (xs ys : List Char) :
    splitPath (xs ++ '/' :: ys) = splitPath xs ++ splitPath ('/' :: ys) := by
  induction xs with
  | nil => rfl
  | cons c cs ih =>
    -- the component in front does not reach beyond the separator
    have htake : (cs ++ '/' :: ys).takeWhile (· ≠ '/') = cs.takeWhile (· ≠ '/') := by
      clear ih
      induction cs with
      | nil => simp
      | cons d ds ih =>
        by_cases hd : d = '/'
        · simp [hd]
        · rw [cons_append, takeWhile_cons_of_pos (by simpa using hd),
            takeWhile_cons_of_pos (by simpa using hd), ih]
    rw [cons_append, splitPath, splitPath, htake, ih]
    split
    · split
      · rfl
      · rfl
    · rfl

lemma render_splitPath_sublist (cs : List Char) :
    (cs.takeWhile (· ≠ '/') ++ render (splitPath cs)).Sublist cs := by
  induction cs with
  | nil => exact List.Sublist.refl _
  | cons c cs ih =>
    -- of several separators in a row one is kept
    by_cases hc : c = '/'
    · subst hc
      rw [takeWhile_cons_of_neg (by simp), nil_append, splitPath, if_pos rfl]
      split
      · rename_i hempty
        rw [hempty, nil_append] at ih
        exact ih.cons _
      · exact ih.cons_cons _
    · rw [takeWhile_cons_of_pos (by simpa using hc), splitPath, if_neg hc]
      exact ih.cons_cons _

/-- Simplifying a path drops parts and adds none. -/
lemma foldl_pushPart_sublist (xs : List Part) :
    ∀ stack : List Part, (xs.foldl pushPart stack).Sublist (stack ++ xs) := by
  induction xs with
  | nil =>
    intro stack
    simp
  | cons x xs ih =>
    intro stack
    have hpush : (pushPart stack x).Sublist (stack ++ [x]) := by
      unfold pushPart
      split
      · exact sublist_append_left _ _
      · split
        · exact (dropLast_sublist _).trans (sublist_append_left _ _)
        · exact List.Sublist.refl _
    calc
      ((x :: xs).foldl pushPart stack).Sublist (pushPart stack x ++ xs) := ih _
      List.Sublist _ ((stack ++ [x]) ++ xs) := hpush.append_right xs
      _ = stack ++ x :: xs := by simp

lemma render_sublist {parts parts' : List Part} (h : parts.Sublist parts') :
    (render parts).Sublist (render parts') := by
  induction h with
  | slnil => exact List.Sublist.refl _
  | cons part _ ih =>
    exact (ih.trans (sublist_append_right part _)).cons _
  | cons_cons part _ ih =>
    exact (ih.append_left part).cons_cons _

lemma normalForm_sublist (cs : List Char) : (normalForm ('/' :: cs)).Sublist ('/' :: cs) := by
  have hstack := foldl_pushPart_sublist (components ('/' :: cs)) []
  have hrender := render_splitPath_sublist ('/' :: cs)
  rw [splitPath_components, takeWhile_cons_of_neg (by simp)] at hrender
  exact (render_sublist hstack).trans hrender

lemma render_ne_append_slash {parts : List Part} (h : ∀ part ∈ parts, IsPart part)
    (cs : List Char) : render parts ≠ cs ++ ['/'] := by
  -- the text ends as its last component does
  rcases eq_nil_or_concat' parts with rfl | ⟨init, last, rfl⟩
  · intro heq
    have hlen := congrArg List.length heq
    simp [render] at hlen
  · rcases h last (by simp) with ⟨hne, hslash⟩
    rcases eq_nil_or_concat' last with rfl | ⟨front, c, rfl⟩
    · exact absurd rfl hne
    · intro heq
      have hend : render (init ++ [front ++ [c]]) = (render init ++ '/' :: front) ++ [c] := by
        simp [render]
      rw [hend] at heq
      have hc : c = '/' := by simpa using (append_inj' heq rfl).2
      exact hslash (by simp [hc])

end Texts

section Search

variable {mounts : List Mount} {absolute : List Char}

/-- The guess is a longest mount among those found. -/
lemma guess_spec (mounts : List Mount) (absolute : List Char) :
    (∀ m, mounts.foldl (guessStep absolute) none = some m → m ∈ mounts ∧ atMount absolute m) ∧
      ∀ m ∈ mounts, atMount absolute m →
        m.name.length ≤ guessSize (mounts.foldl (guessStep absolute) none) := by
  -- the same from any guess on, with the guess among the candidates
  have hall : ∀ (ms : List Mount) (guess : Option Mount),
      (∀ m, ms.foldl (guessStep absolute) guess = some m →
        (m ∈ ms ∧ atMount absolute m) ∨ guess = some m) ∧
      guessSize guess ≤ guessSize (ms.foldl (guessStep absolute) guess) ∧
      ∀ m ∈ ms, atMount absolute m →
        m.name.length ≤ guessSize (ms.foldl (guessStep absolute) guess) := by
    intro ms
    induction ms with
    | nil =>
      intro guess
      exact ⟨fun m h => .inr h, Nat.le_refl _, by simp⟩
    | cons m ms ih =>
      intro guess
      rcases ih (guessStep absolute guess m) with ⟨hfound, hgrow, hlongest⟩
      -- one round: the guess grows, to the name at least if it is found
      have hstep : guessSize guess ≤ guessSize (guessStep absolute guess m) ∧
          (atMount absolute m → m.name.length ≤ guessSize (guessStep absolute guess m)) := by
        unfold guessStep
        split
        · rename_i h
          exact ⟨Nat.le_of_lt h.2, fun _ => Nat.le_refl _⟩
        · rename_i h
          exact ⟨Nat.le_refl _, fun hat => Nat.le_of_not_lt fun hlt => h ⟨hat, hlt⟩⟩
      refine ⟨?_, Nat.le_trans hstep.1 hgrow, ?_⟩
      · intro m' hm'
        rcases hfound m' hm' with ⟨hmem, hat⟩ | hguess
        · exact .inl ⟨mem_cons_of_mem _ hmem, hat⟩
        · unfold guessStep at hguess
          split at hguess
          · rename_i h
            have heq : m = m' := Option.some.inj hguess
            rw [← heq]
            exact .inl ⟨mem_cons_self, h.1⟩
          · exact .inr hguess
      · intro m' hm' hat
        rcases mem_cons.1 hm' with rfl | hmem
        · exact Nat.le_trans (hstep.2 hat) hgrow
        · exact hlongest m' hmem hat
  rcases hall mounts none with ⟨hfound, _, hlongest⟩
  exact ⟨fun m hm => (hfound m hm).resolve_right (by simp), hlongest⟩

/-- The name is found in front of a text that ends, goes on with a separator, or goes on at all if the
name is the root's. -/
lemma atMount_split {m : Mount} :
    atMount absolute m = true ↔
      ∃ rest, absolute = m.name ++ rest ∧
        (rest.getD 0 nul = '/' ∨ rest.getD 0 nul = nul ∨
          m.name.takeWhile (· ≠ nul) = ['/']) := by
  have hget : ∀ rest, (m.name ++ rest).getD m.name.length nul = rest.getD 0 nul := by
    intro rest
    rw [getD_eq_getElem?_getD, getD_eq_getElem?_getD,
      List.getElem?_append_right (Nat.le_refl _), Nat.sub_self]
  constructor
  · intro h
    simp only [atMount, Bool.and_eq_true, Bool.or_eq_true, decide_eq_true_eq, or_assoc] at h
    have hsplit : absolute = m.name ++ absolute.drop m.name.length := by
      rw [← h.1.2, length_take, Nat.min_eq_left (Nat.le_of_not_lt (by simpa using h.1.1)),
        take_append_drop]
    refine ⟨_, hsplit, ?_⟩
    have hend := h.2
    rw [hsplit, hget] at hend
    exact hend
  · rintro ⟨rest, rfl, hend⟩
    simp only [atMount, Bool.and_eq_true, Bool.or_eq_true, decide_eq_true_eq, or_assoc, hget]
    exact ⟨⟨by simp, by simp⟩, hend⟩

/-- The mounts that are found are those that cover the path, and those that stray. -/
lemma atMount_iff {parts : List Part} (hparts : ∀ part ∈ parts, IsPart part) {m : Mount}
    (hm : IsMountName m.name) :
    atMount (render parts) m = true ↔
      (Covers m (render parts) ∧ parts ≠ []) ∨ Strays m (render parts) := by
  have hcomponents := components_render parts hparts
  rw [Covers, hcomponents]
  rcases hm with hroot | ⟨ps, hne, hps, hname⟩
  · -- the root
    have hempty : components m.name = [] := by
      rw [hroot]
      rfl
    have hstrays : ¬ Strays m (render parts) := fun ⟨_, _, _, _, hnot, _⟩ => hnot hroot
    rw [hempty, or_iff_left hstrays]
    cases parts with
    | nil => simp [atMount, hroot, render]
    | cons part parts => simp [atMount, hroot, render_cons, nul]
  · have hps' : ∀ part ∈ ps, IsPart part := fun part hpart => (hps part hpart).1
    have hcomp : components m.name = ps := by
      rw [hname]
      exact components_render ps hps'
    have hnotRoot : m.name ≠ ['/'] := by
      rw [hname]
      exact render_ne_append_slash hps' []
    have hnonempty : ps <+: parts → parts ≠ [] := by
      rintro hpre rfl
      exact hne (prefix_nil.1 hpre)
    rw [hcomp, atMount_split]
    constructor
    · rintro ⟨rest, hrest, hend⟩
      have hsame : parts = splitPath (m.name ++ rest) := by
        rw [← hrest, splitPath_render parts hparts]
      cases rest with
      | nil =>
        have heq : parts = ps := by rw [hsame, append_nil, hname, splitPath_render ps hps']
        exact .inl ⟨heq ▸ prefix_rfl, hnonempty (heq ▸ prefix_rfl)⟩
      | cons c cs =>
        by_cases hc : c = '/'
        · have hpre : ps <+: parts := by
            rw [hsame, hc, splitPath_append, hname, splitPath_render ps hps']
            exact prefix_append _ _
          exact .inl ⟨hpre, hnonempty hpre⟩
        · exact .inr ⟨c, cs, hrest, hc, hnotRoot, hend.resolve_left hc⟩
    · rintro (⟨⟨more, hmore⟩, _⟩ | ⟨c, cs, hrest, _, _, hend⟩)
      · refine ⟨render more, by rw [← hmore, render_append, hname], ?_⟩
        cases more with
        | nil => exact .inr (.inl rfl)
        | cons part more => exact .inl rfl
      · exact ⟨c :: cs, hrest, .inr hend⟩

end Search

section Local

variable {parts : List Part} {m m' : Mount}

lemma IsMountName.cases {name : List Char} (h : IsMountName name) :
    (name = ['/'] ∧ components name = []) ∨
      (components name ≠ [] ∧ (∀ part ∈ components name, IsPart part) ∧
        name = render (components name)) := by
  rcases h with rfl | ⟨ps, hne, hps, rfl⟩
  · exact .inl ⟨rfl, rfl⟩
  · have hcomp := components_render ps fun part hpart => (hps part hpart).1
    rw [hcomp]
    exact .inr ⟨hne, fun part hpart => (hps part hpart).1, rfl⟩

lemma two_le_length_render (hne : parts ≠ []) (hparts : ∀ part ∈ parts, IsPart part) :
    2 ≤ (render parts).length := by
  cases parts with
  | nil => exact absurd rfl hne
  | cons part parts =>
    have hpos := length_pos_iff.2 (hparts part mem_cons_self).1
    rw [render_cons, length_cons, length_append]
    omega

/-- A mount name is determined by its components. -/
lemma name_eq_of_length (hm : IsMountName m.name) (hm' : IsMountName m'.name)
    (hpre : components m.name <+: components m'.name) (hlen : m'.name.length ≤ m.name.length) :
    m.name = m'.name := by
  rcases hm.cases with ⟨hroot, _⟩ | ⟨hne, hparts, hname⟩
  · rcases hm'.cases with ⟨hroot', _⟩ | ⟨hne', hparts', hname'⟩
    · rw [hroot, hroot']
    · have htwo := two_le_length_render hne' hparts'
      rw [← hname'] at htwo
      rw [hroot] at hlen
      simp at hlen
      omega
  · rcases hpre with ⟨more, hmore⟩
    rcases hm'.cases with ⟨_, hempty⟩ | ⟨_, _, hname'⟩
    · rw [hempty] at hmore
      exact absurd (append_eq_nil_iff.1 hmore).1 hne
    · have hlong : m'.name = m.name ++ render more := by
        rw [hname', ← hmore, render_append, ← hname]
      rw [hlong, length_append] at hlen
      have hnil : render more = [] := length_eq_zero_iff.1 (by omega)
      rw [hlong, hnil, append_nil]

variable {path : List Char}

lemma Best.name_eq {mounts : List Mount} (hnames : ∀ m ∈ mounts, IsMountName m.name)
    (h : Best mounts path m) (h' : Best mounts path m') : m.name = m'.name := by
  have hm := hnames m h.mem
  have hm' := hnames m' h'.mem
  -- both cover the path, so one name is a prefix of the other
  rcases prefix_or_prefix_of_prefix h.covers h'.covers with hpre | hpre
  · exact name_eq_of_length hm hm' hpre (h.longest m' h'.mem h'.covers)
  · exact (name_eq_of_length hm' hm hpre (h'.longest m h.mem h.covers)).symm

/-- The path handed to the file system is the rest behind the mount's name. -/
lemma localPath_render (hne : parts ≠ []) (hparts : ∀ part ∈ parts, IsPart part)
    (hm : IsMountName m.name) (hcovers : Covers m (render parts)) :
    (m.name = ['/'] ∧ localPath m (render parts) = render parts) ∨
      ∃ more, 1 < m.name.length ∧ render parts = m.name ++ render more ∧
        localPath m (render parts) = if more = [] then ['/'] else render more := by
  have hcomp := components_render parts hparts
  rw [Covers, hcomp] at hcovers
  rcases hm.cases with ⟨hroot, hempty⟩ | ⟨hne', hparts', hname⟩
  · refine .inl ⟨hroot, ?_⟩
    rw [localPath, hcomp, hempty]
    exact if_neg hne
  · rcases hcovers with ⟨more, hmore⟩
    refine .inr ⟨more, ?_, ?_, ?_⟩
    · rw [hname]
      exact two_le_length_render hne' hparts'
    · rw [← hmore, render_append, ← hname]
    · rw [localPath, hcomp, ← hmore, drop_left]

lemma fillLocal_iff {text rest : List Char} :
    fillLocal text = some ('/' :: rest) ↔ text = '/' :: rest ∨ text = nul :: rest := by
  cases text with
  | nil => simp [fillLocal]
  | cons c cs =>
    by_cases hc : c = nul
    · subst hc
      have hne : nul ≠ '/' := by decide
      simp [fillLocal, hne]
    · simp [fillLocal, hc]

/-- A separator behind the text: it is not one of the text, which is all there is in front of it. -/
lemma drop_eq_slash_iff (hsub : (render parts).Sublist path)
    (hparts : ∀ part ∈ parts, IsPart part) :
    path.drop (render parts).length = ['/'] ↔ path = render parts ++ ['/'] := by
  constructor
  · intro hdrop
    have htake : path = path.take (render parts).length ++ ['/'] := by
      rw [← hdrop, take_append_drop]
    rw [htake] at hsub
    -- the last separator is not used for the text, which does not end with one
    rcases sublist_append_iff.1 hsub with ⟨front, back, hparts_eq, hfront, hback⟩
    rcases sublist_singleton.1 hback with rfl | rfl
    · rw [append_nil] at hparts_eq
      rw [← hparts_eq] at hfront
      have hsame := hfront.eq_of_length_le (length_take_le _ _)
      rw [htake, ← hsame]
    · exact absurd hparts_eq (render_ne_append_slash hparts front)
  · intro hpath
    rw [hpath, drop_left]

lemma drop_eq_singleton_iff {c : Char} {n : Nat} (hn : n ≤ path.length) :
    path.drop n = [c] ↔ ∃ front, path = front ++ [c] ∧ front.length = n := by
  constructor
  · intro hdrop
    exact ⟨path.take n, by rw [← hdrop, take_append_drop], length_take_of_le hn⟩
  · rintro ⟨front, rfl, rfl⟩
    exact drop_left

lemma drop_eq_drop_iff {text : List Char} {n : Nat} (hsub : text.Sublist path)
    (hn : n < text.length) : path.drop n = text.drop n ↔ path = text := by
  constructor
  · intro hdrop
    have hlen := congrArg List.length hdrop
    rw [length_drop, length_drop] at hlen
    -- equally long, and one is found in the other
    exact (hsub.eq_of_length_le (by omega)).symm
  · intro hpath
    rw [hpath]

/-- When the local path is the rest of the request. -/
lemma fillLocal_cut_iff {cs : List Char} (hsub : (render parts).Sublist ('/' :: cs))
    (hne : parts ≠ []) (hparts : ∀ part ∈ parts, IsPart part) (hm : IsMountName m.name)
    (hcovers : Covers m (render parts)) :
    (cutLocal ('/' :: cs) m.name.length).bind fillLocal = some (localPath m (render parts)) ↔
      if render parts = m.name then
        '/' :: cs = render parts ++ ['/'] ∨
          ∃ front, '/' :: cs = front ++ [nul] ∧ front.length = (render parts).length
      else '/' :: cs = render parts := by
  have hlen := hsub.length_le
  rcases localPath_render hne hparts hm hcovers with ⟨hroot, hlocal⟩ | ⟨more, hlong, hsplit, hlocal⟩
  · -- the root: nothing is cut away
    have hneq : render parts ≠ m.name := by
      rw [hroot]
      exact render_ne_append_slash hparts []
    rw [if_neg hneq, hlocal, hroot]
    show fillLocal ('/' :: cs) = _ ↔ _
    have hfill : fillLocal ('/' :: cs) = some ('/' :: cs) := by
      have hnul : '/' ≠ nul := by decide
      simp [fillLocal, hnul]
    rw [hfill, Option.some.injEq]
  · have hlength := congrArg List.length hsplit
    rw [length_append] at hlength
    have hcut : cutLocal ('/' :: cs) m.name.length = some (('/' :: cs).drop m.name.length) := by
      rw [cutLocal, if_pos hlong, if_pos (by omega)]
    rw [hcut, Option.bind_some, hlocal]
    cases more with
    | nil =>
      have heq : render parts = m.name := by
        rw [hsplit]
        exact append_nil _
      rw [if_pos rfl, if_pos heq, fillLocal_iff, ← heq, drop_eq_slash_iff hsub hparts,
        drop_eq_singleton_iff hlen]
    | cons part more =>
      have hlt : m.name.length < (render parts).length := by
        rw [render_cons, length_cons] at hlength
        omega
      have hneq : render parts ≠ m.name := fun heq => absurd (congrArg List.length heq) (by omega)
      have hrest : (render parts).drop m.name.length = '/' :: (part ++ render more) := by
        rw [hsplit, drop_left, render_cons]
      rw [if_neg (cons_ne_nil _ _), if_neg hneq, render_cons, fillLocal_iff, ← hrest,
        drop_eq_drop_iff hsub hlt, or_iff_left]
      -- a zero byte in place of the separator: the lengths make the text the whole request
      intro hzero
      have hsame : '/' :: cs = render parts := by
        have hdrop := congrArg List.length hzero
        have hdrop' := congrArg List.length hrest
        simp only [length_drop, length_cons] at hdrop hdrop'
        exact (hsub.eq_of_length_le (by rw [length_cons]; omega)).symm
      rw [hsame, hrest] at hzero
      exact absurd (cons.inj hzero).1 (by decide)

end Local

/-! ## Requests -/

/-- Where no mount that strays counts, the search finds the best mount. -/
lemma guess_best {mounts : List Mount} {parts : List Part}
    (hnames : ∀ m ∈ mounts, IsMountName m.name) (hparts : ∀ part ∈ parts, IsPart part)
    (hsighted : Sighted mounts (render parts)) (hne : parts ≠ []) :
    (mounts.foldl (guessStep (render parts)) none = none ∧
        ∀ m ∈ mounts, ¬ Covers m (render parts)) ∨
      ∃ m, mounts.foldl (guessStep (render parts)) none = some m ∧
        Best mounts (render parts) m := by
  rcases guess_spec mounts (render parts) with ⟨hfound, hlongest⟩
  have hat : ∀ m ∈ mounts, Covers m (render parts) → atMount (render parts) m = true :=
    fun m hm hcovers => (atMount_iff hparts (hnames m hm)).2 (.inl ⟨hcovers, hne⟩)
  cases hguess : mounts.foldl (guessStep (render parts)) none with
  | none =>
    refine .inl ⟨rfl, ?_⟩
    intro m hm hcovers
    -- a name that is found is not longer than no guess at all, so it is empty
    have hzero := hlongest m hm (hat m hm hcovers)
    rw [hguess] at hzero
    rcases (hnames m hm).cases with ⟨hroot, _⟩ | ⟨hne', hparts', hname⟩
    · rw [hroot] at hzero
      exact absurd hzero (by decide)
    · have htwo := two_le_length_render hne' hparts'
      rw [← hname] at htwo
      exact absurd (Nat.le_trans htwo hzero) (by decide)
  | some m =>
    rcases hfound m hguess with ⟨hm, hfits⟩
    have hlong : ∀ m' ∈ mounts, Covers m' (render parts) → m'.name.length ≤ m.name.length := by
      intro m' hm' hcovers
      have hle := hlongest m' hm' (hat m' hm' hcovers)
      rwa [hguess] at hle
    rcases (atMount_iff hparts (hnames m hm)).1 hfits with ⟨hcovers, _⟩ | hstrays
    · exact .inr ⟨m, rfl, hm, hcovers, hlong⟩
    · rcases hsighted m hm hstrays with ⟨m', hm', hcovers, hlt⟩
      exact absurd (hlong m' hm' hcovers) (Nat.not_le.2 hlt)

lemma guess_empty {mounts : List Mount} (hnames : ∀ m ∈ mounts, IsMountName m.name) :
    mounts.foldl (guessStep []) none = none := by
  cases hguess : mounts.foldl (guessStep []) none with
  | none => rfl
  | some m =>
    rcases (guess_spec mounts []).1 m hguess with ⟨hm, hfits⟩
    have hempty : atMount (render []) m = true := hfits
    rcases (atMount_iff (by simp) (hnames m hm)).1 hempty with ⟨_, hne⟩ | ⟨c, rest, hrest, _⟩
    · exact absurd rfl hne
    · simp [render] at hrest

/-- Where no name is found the request is answered as it came. -/
lemma getMountpoint_of_none {mounts : List Mount} {cwd cs abs : List Char}
    (habsolute : makePathAbsolute cwd ('/' :: cs) = some abs)
    (hguess : mounts.foldl (guessStep abs) none = none) :
    getMountpoint mounts cwd ('/' :: cs) = some (none, '/' :: cs) := by
  rw [getMountpoint, habsolute, Option.bind_some, hguess]
  rfl

/-- For a path that `make_path_absolute` normalises: the request is plain exactly if it is answered
right and no mount that strays counts.  (A mount that strays and does count is the answer then; its file
system may be that of the best mount.) -/
theorem getMountpoint_right_iff (mounts : List Mount) (cwd cs : List Char)
    (hnames : ∀ m ∈ mounts, IsMountName m.name)
    (hregular : regular 0 (components ('/' :: cs)) = true) :
    Resolves mounts cwd ('/' :: cs) ∧ Sighted mounts (normalForm ('/' :: cs)) ↔
      Plain mounts ('/' :: cs) := by
  rw [and_comm, Plain]
  refine and_congr_right fun hsighted => ?_
  have habsolute := (makePathAbsolute_eq_iff cwd cs).2 hregular
  have hparts : ∀ part ∈ normalParts ('/' :: cs), IsPart part := fun _ h => (mem_normalParts h).2
  have hform : normalForm ('/' :: cs) = render (normalParts ('/' :: cs)) := rfl
  by_cases hempty : normalParts ('/' :: cs) = []
  · -- the root as a request: the empty text has no mount, whatever the list
    have hnil : normalForm ('/' :: cs) = [] := by
      rw [hform, hempty]
      rfl
    have hanswer := getMountpoint_of_none habsolute (hnil ▸ guess_empty hnames)
    constructor
    · rintro ⟨fs, out, hget, hnone | ⟨m, _, hfs, _⟩⟩
      · exact Or.inl hnone.2
      · rw [hanswer, hfs] at hget
        cases hget
    · rintro (hnone | ⟨m, _, hne, _⟩)
      · exact ⟨none, _, hanswer, Or.inl ⟨rfl, hnone⟩⟩
      · exact absurd hnil hne
  · have hne : normalForm ('/' :: cs) ≠ [] := by
      rw [hform]
      rcases render_eq_cons hempty with ⟨rest, hrest⟩
      rw [hrest]
      exact List.cons_ne_nil _ _
    rw [hform] at habsolute hne
    -- the search is right; what can go wrong is the local path
    rcases guess_best hnames hparts hsighted hempty with ⟨hguess, hnone⟩ | ⟨m, hguess, hbest⟩
    · have hanswer := getMountpoint_of_none habsolute hguess
      exact ⟨fun _ => Or.inl hnone, fun _ => ⟨none, _, hanswer, Or.inl ⟨rfl, hnone⟩⟩⟩
    · have hanswer : getMountpoint mounts cwd ('/' :: cs) =
          ((cutLocal ('/' :: cs) m.name.length).bind fillLocal).map
            fun out => (some m.fs, out) := by
        rw [getMountpoint, habsolute, Option.bind_some, hguess, Option.map_bind]
        rfl
      have hiff := fillLocal_cut_iff (normalForm_sublist cs) hempty hparts
        (hnames m hbest.mem) hbest.covers
      constructor
      · rintro ⟨fs, out, hget, hnone | ⟨m', hbest', hfs, hout⟩⟩
        · exact absurd hbest.covers (hnone.2 m hbest.mem)
        · -- another best mount has the same name, so it has the same local path
          have hname := hbest.name_eq hnames hbest'
          have hsame : localPath m' = localPath m := by
            funext path
            rw [localPath, localPath, hname]
          refine Or.inr ⟨m, hbest, hne, hiff.1 ?_⟩
          rw [hanswer, hout, hsame] at hget
          rcases Option.map_eq_some_iff.1 hget with ⟨out', hcut, hpair⟩
          rw [hcut, (Prod.mk.inj hpair).2]
          rfl
      · rintro (hnone | ⟨m', hbest', _, hplain⟩)
        · exact absurd hbest.covers (hnone m hbest.mem)
        · rw [← hbest.name_eq hnames hbest'] at hplain
          refine ⟨some m.fs, localPath m (normalForm ('/' :: cs)), ?_, Or.inr ⟨m, hbest, rfl, rfl⟩⟩
          rw [hanswer, hiff.2 hplain]
          rfl

def rootAndDev : List Mount :=
  [{ name := ['/'], fs := 0 }, { name := ['/', 'd', 'e', 'v'], fs := 1 }]

lemma isMountName_rootAndDev : ∀ m ∈ rootAndDev, IsMountName m.name := by
  intro m hm
  rcases mem_cons.1 hm with rfl | hm
  · exact .inl rfl
  · rw [mem_singleton.1 hm]
    refine .inr ⟨[['d', 'e', 'v']], by simp, ?_, rfl⟩
    intro part hpart
    rw [mem_singleton.1 hpart]
    exact ⟨⟨by decide, by decide⟩, by decide⟩

/-- The request `/dev/t`, a zero byte, `y` goes to the second mount. -/
theorem getMountpoint_right_zero :
    Resolves rootAndDev [] ['/', 'd', 'e', 'v', '/', 't', nul, 'y'] := by
  refine ((getMountpoint_right_iff rootAndDev [] ['d', 'e', 'v', '/', 't', nul, 'y']
    isMountName_rootAndDev (by decide)).2 ⟨?_, ?_⟩).1
  · intro m hm hstrays
    rcases hstrays with ⟨c, rest, hpath, hc, hroot, _⟩
    rcases List.mem_cons.1 hm with rfl | hm
    · exact absurd rfl hroot
    · rw [List.mem_singleton.1 hm] at hpath
      exact absurd (congrArg (List.getD · 4 nul) hpath).symm hc
  · refine Or.inr ⟨{ name := ['/', 'd', 'e', 'v'], fs := 1 }, ⟨by decide, ?_, ?_⟩, by decide, ?_⟩
    · show components _ <+: components _
      decide
    · intro m hm _
      rcases List.mem_cons.1 hm with rfl | hm
      · decide
      · rw [List.mem_singleton.1 hm]
    · rw [if_neg (by decide)]
      decide

/-- The request `//dev/tty` goes to the second mount with the local path `v/tty`. -/
theorem getMountpoint_cuts_request :
    ¬ ∀ (mounts : List Mount) (cwd cs : List Char), (∀ m ∈ mounts, IsMountName m.name) →
      Resolves mounts cwd ('/' :: cs) := by
  intro h
  rcases h rootAndDev [] ['/', 'd', 'e', 'v', '/', 't', 't', 'y'] isMountName_rootAndDev with
    ⟨fs, out, hget, hresult⟩
  have hcode : getMountpoint rootAndDev [] ['/', '/', 'd', 'e', 'v', '/', 't', 't', 'y'] =
      some (some 1, ['v', '/', 't', 't', 'y']) := by
    decide
  rw [hcode] at hget
  rcases Prod.mk.inj (Option.some.inj hget) with ⟨hfs, hout⟩
  rcases hresult with ⟨hnone, _⟩ | ⟨m, _, _, hlocal⟩
  · rw [hnone] at hfs
    cases hfs
  · -- a local path begins with a separator
    have hslash : ∃ rest, localPath m (normalForm ['/', '/', 'd', 'e', 'v', '/', 't', 't', 'y']) =
        '/' :: rest := by
      unfold localPath
      split
      · exact ⟨[], rfl⟩
      · rename_i hne
        exact render_eq_cons hne
    rcases hslash with ⟨rest, hrest⟩
    rw [hlocal, hrest] at hout
    exact absurd (List.cons.inj hout).1 (by decide)

end SigmaOS.Zeta
