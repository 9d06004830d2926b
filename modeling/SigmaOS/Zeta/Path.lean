import Mathlib.Data.List.Basic

/-!
# Zeta.Path — making paths absolute

`make_path_absolute` resolves the dot components of a path while it runs over the vector of its
components.  What the loop does to the vector is said again by `walk`, on the components in front of
the iterator and those behind it: a dot component is erased, and the component behind it moves into
its place and is passed over without being looked at.  `regular` follows the height of the stack of
components and says when this does no harm, `walk_eq_iff` that it does harm in all other cases.

Paths and components are lists of characters.  Reading behind the end of the vector is undefined, and
so is `cwd[cwd.size() - 1]` for the empty `cwd`; both give `none`.
-/

namespace SigmaOS.Zeta

open List

abbrev Part := List Char

def dot : Part := ['.']

def dotDot : Part := ['.', '.']

/-- `split_path`: at each separator, what follows it up to the next one, if this is not empty. -/
def splitPath : List Char → List Part
  | [] => []
  | c :: cs =>
    if c = '/' then
      if cs.takeWhile (· ≠ '/') = [] then
        splitPath cs
      else
        cs.takeWhile (· ≠ '/') :: splitPath cs
    else
      splitPath cs

/-- The loop of `make_path_absolute`, with the index of the iterator. -/
def resolveLoop : Nat → List Part → Nat → Option (List Part)
  | 0, _, _ => none
  | fuel + 1, parts, it =>
    if it = parts.length then
      some parts
    else
      match parts[it]? with
      -- the iterator is behind the end
      | none => none
      | some item =>
        if item = dot then
          -- the next component moves to `it`, and `++it` goes past it
          resolveLoop fuel (parts.eraseIdx it) (it + 1)
        else if item = dotDot then
          -- `it -= 1` and the `++it` of the loop cancel each other
          resolveLoop fuel
            (if it = 0 then parts.eraseIdx it else (parts.eraseIdx it).eraseIdx (it - 1)) it
        else
          resolveLoop fuel parts (it + 1)

def render (parts : List Part) : List Char :=
  parts.flatMap ('/' :: ·)

/-- The path that is resolved: a relative one is appended to `cwd`. -/
def absolutePath (cwd path : List Char) : Option (List Char) :=
  match path with
  -- `path[0]` of an empty path
  | [] => none
  | c :: _ =>
    if c ≠ '/' then
      cwd.getLast?.map fun last => cwd ++ (if last ≠ '/' then ['/'] else []) ++ path
    else
      some path

/-- `make_path_absolute` for a thread with the directory `cwd`. -/
def makePathAbsolute (cwd path : List Char) : Option (List Char) :=
  (absolutePath cwd path).bind fun absolute =>
    (resolveLoop ((splitPath absolute).length + 1) (splitPath absolute) 0).map render

/-! ## Normal forms -/

def pushPart (stack : List Part) (part : Part) : List Part :=
  if part = dot then
    stack
  else if part = dotDot then
    stack.dropLast
  else
    stack ++ [part]

/-- The path cut at its separators, without the empty components. -/
def components (path : List Char) : List Part :=
  (path.splitOn '/').filter (· ≠ [])

def normalForm (path : List Char) : List Char :=
  render ((components path).foldl pushPart [])

/-- A component that is on the stack in the end. -/
def Ordinary (part : Part) : Prop :=
  part ≠ dot ∧ part ≠ dotDot

instance (part : Part) : Decidable (Ordinary part) :=
  inferInstanceAs (Decidable (_ ∧ _))

mutual

/-- The loop with the components `done` in front of the iterator. -/
def walk : List Part → List Part → Option (List Part)
  | done, [] => some done
  | done, x :: xs =>
    if x = dot then
      skip done xs
    else if x = dotDot then
      if done = [] then walk [] xs else skip done.dropLast xs
    else
      walk (done ++ [x]) xs

def skip : List Part → List Part → Option (List Part)
  | _, [] => none
  | done, y :: ys => walk (done ++ [y]) ys

end

lemma eraseIdx_middle (done : List Part) (x : Part) (xs : List Part) :
    (done ++ x :: xs).eraseIdx done.length = done ++ xs := by
  rw [eraseIdx_append_of_length_le (Nat.le_refl _), Nat.sub_self]
  rfl

/-- The loop over the vector is the recursion over the parts. -/
lemma resolveLoop_walk (fuel : Nat) :
    ∀ done xs : List Part, xs.length < fuel →
      resolveLoop fuel (done ++ xs) done.length = walk done xs := by
  induction fuel with
  | zero =>
    intro done xs h
    exact absurd h (Nat.not_lt_zero _)
  | succ fuel ih =>
    -- the component behind the one that was erased is passed over
    have hskip : ∀ done xs : List Part, xs.length < fuel →
        resolveLoop fuel (done ++ xs) (done.length + 1) = skip done xs := by
      intro done xs h
      cases xs with
      | nil =>
        cases fuel with
        | zero => exact absurd h (Nat.not_lt_zero _)
        | succ fuel => simp [resolveLoop, skip]
      | cons y ys =>
        have hstep := ih (done ++ [y]) ys (by simp at h; omega)
        simpa [skip] using hstep
    intro done xs h
    cases xs with
    | nil => simp [resolveLoop, walk]
    | cons x xs =>
      have hfuel : xs.length < fuel := by simpa using h
      have hne : done.length ≠ (done ++ x :: xs).length := by simp
      have hget : (done ++ x :: xs)[done.length]? = some x := by simp
      rw [resolveLoop, if_neg hne, hget, walk, eraseIdx_middle]
      show (if _ then _ else _) = _
      by_cases hdot : x = dot
      · rw [if_pos hdot, if_pos hdot, hskip done xs hfuel]
      · rw [if_neg hdot, if_neg hdot]
        by_cases hdotDot : x = dotDot
        · rw [if_pos hdotDot, if_pos hdotDot]
          -- at the front `..` erases only itself
          rcases eq_nil_or_concat' done with rfl | ⟨init, last, rfl⟩
          · exact ih [] xs hfuel
          · have hlast : (init ++ [last] ++ xs).eraseIdx ((init ++ [last]).length - 1) =
                init ++ xs := by
              rw [append_assoc, length_append, length_singleton,
                Nat.add_sub_cancel]
              exact eraseIdx_middle init last xs
            rw [if_neg (by simp), if_neg (by simp), hlast, dropLast_concat,
              length_append]
            exact hskip init xs hfuel
        · rw [if_neg hdotDot, if_neg hdotDot]
          simpa using ih (done ++ [x]) xs hfuel

/-! ## When the walk is right -/

mutual

/-- The components that are passed over do no harm, with `n` components on the stack. -/
def regular : Nat → List Part → Bool
  | _, [] => true
  | n, x :: xs =>
    if x = dot then
      skips n xs
    else if x = dotDot then
      match n with
      | 0 => regular 0 xs
      | n + 1 => skips n xs
    else
      regular (n + 1) xs

/-- The first component is passed over: there is one, and it is an ordinary one, or the stack is empty
and the component is taken away by a `..` that follows it. -/
def skips : Nat → List Part → Bool
  | _, [] => false
  | n, [z] => decide (Ordinary z) && regular (n + 1) []
  | n, z :: x :: xs =>
    if Ordinary z then
      regular (n + 1) (x :: xs)
    else
      n == 0 && decide (x = dotDot) && skips 0 xs

end

section Walk

variable {done xs : List Part}

@[simp] lemma pushPart_dot (stack : List Part) : pushPart stack dot = stack := by
  simp [pushPart]

@[simp] lemma pushPart_dotDot (stack : List Part) : pushPart stack dotDot = stack.dropLast := by
  simp [pushPart, dot, dotDot]

variable {part x : Part}

lemma pushPart_ordinary (h : Ordinary part) (stack : List Part) :
    pushPart stack part = stack ++ [part] := by
  simp [pushPart, h.1, h.2]

lemma pushPart_not_ordinary (h : ¬ Ordinary part) (stack : List Part) :
    (pushPart stack part).length ≤ stack.length := by
  rw [Ordinary, not_and_or, not_not, not_not] at h
  rcases h with rfl | rfl
  · simp
  · simp

lemma length_pushPart (stack : List Part) (part : Part) :
    (pushPart stack part).length ≤ stack.length + 1 := by
  by_cases h : Ordinary part
  · simp [pushPart_ordinary h]
  · exact Nat.le_succ_of_le (pushPart_not_ordinary h stack)

/-- The walk ends with the stack of the components. -/
def Agrees (done xs : List Part) : Prop :=
  walk done xs = some (xs.foldl pushPart done)

/-- The same, if the first component is passed over. -/
def SkipAgrees (done xs : List Part) : Prop :=
  skip done xs = some (xs.foldl pushPart done)

lemma agrees_dot : Agrees done (dot :: xs) ↔ SkipAgrees done xs := by
  rw [Agrees, SkipAgrees, walk, if_pos rfl, foldl_cons, pushPart_dot]

lemma agrees_dotDot_nil : Agrees [] (dotDot :: xs) ↔ Agrees [] xs := by
  rfl

lemma agrees_dotDot_concat (last : Part) :
    Agrees (done ++ [last]) (dotDot :: xs) ↔ SkipAgrees done xs := by
  rw [Agrees, SkipAgrees, walk, if_neg (by decide), if_pos rfl, if_neg (by simp), foldl_cons,
    pushPart_dotDot, dropLast_concat]

lemma agrees_ordinary (hx : Ordinary x) : Agrees done (x :: xs) ↔ Agrees (done ++ [x]) xs := by
  rw [Agrees, Agrees, walk, if_neg hx.1, if_neg hx.2, foldl_cons, pushPart_ordinary hx]

lemma not_skipAgrees_nil : ¬ SkipAgrees done [] := by
  simp [SkipAgrees, skip]

lemma skipAgrees_ordinary (hx : Ordinary x) :
    SkipAgrees done (x :: xs) ↔ Agrees (done ++ [x]) xs := by
  rw [SkipAgrees, Agrees, skip, foldl_cons, pushPart_ordinary hx]

/-- Two components in front of the iterator and fewer on the stack: the walk only replaces the last
component or adds more, so it never gets as short as the stack again. -/
lemma walk_longer (n : Nat) :
    ∀ done stack xs r : List Part, xs.length ≤ n → 2 ≤ done.length → stack.length < done.length →
      walk done xs = some r → (xs.foldl pushPart stack).length < r.length := by
  induction n with
  | zero =>
    intro done stack xs r hn _ hlt hwalk
    have hnil : xs = [] := length_eq_zero_iff.1 (Nat.le_zero.1 hn)
    subst hnil
    rw [← Option.some.inj hwalk]
    exact hlt
  | succ n ih =>
    -- the same for a component that is passed over: it makes the stack one higher at most
    have hskip : ∀ done stack xs r : List Part, xs.length ≤ n → stack.length < done.length →
        skip done xs = some r → (xs.foldl pushPart stack).length < r.length := by
      intro done stack xs r hn hlt hskip
      cases xs with
      | nil => simp [skip] at hskip
      | cons y ys =>
        have hpush := length_pushPart stack y
        apply ih (done ++ [y]) _ ys r _ _ _ hskip
        · simp at hn
          omega
        · simp
          omega
        · simp
          omega
    intro done stack xs r hn htwo hlt hwalk
    cases xs with
    | nil =>
      rw [← Option.some.inj hwalk]
      exact hlt
    | cons x xs =>
      have hlen : xs.length ≤ n := by simpa using hn
      rw [walk] at hwalk
      rw [foldl_cons]
      by_cases hdot : x = dot
      · rw [if_pos hdot] at hwalk
        rw [hdot, pushPart_dot]
        exact hskip done stack xs r hlen hlt hwalk
      · rw [if_neg hdot] at hwalk
        by_cases hdotDot : x = dotDot
        · have hne : done ≠ [] := by
            rintro rfl
            simp at htwo
          rw [if_pos hdotDot, if_neg hne] at hwalk
          rw [hdotDot, pushPart_dotDot]
          apply hskip done.dropLast _ xs r hlen _ hwalk
          simp only [length_dropLast]
          omega
        · rw [if_neg hdotDot] at hwalk
          rw [pushPart_ordinary ⟨hdot, hdotDot⟩]
          apply ih (done ++ [x]) _ xs r hlen _ _ hwalk
          · simp
            omega
          · simpa using hlt

lemma not_agrees_longer {stack : List Part} (htwo : 2 ≤ done.length)
    (hlt : stack.length < done.length) : walk done xs ≠ some (xs.foldl pushPart stack) := by
  intro h
  exact Nat.lt_irrefl _ (walk_longer xs.length done stack xs _ (Nat.le_refl _) htwo hlt h)

lemma not_agrees_pair (x y : Part) :
    walk [x, y] xs ≠ some (xs.foldl pushPart (pushPart [] y)) := by
  have hy : (pushPart [] y).length ≤ 1 := length_pushPart [] y
  exact not_agrees_longer (Nat.le_refl 2) (Nat.lt_succ_of_le hy)

/-- A dot component that is passed over must be the first one of all, and go with the `..` behind
it. -/
lemma skipAgrees_not_ordinary (hx : ¬ Ordinary x) :
    SkipAgrees done (x :: xs) ↔ done = [] ∧ ∃ ys, xs = dotDot :: ys ∧ SkipAgrees [] ys := by
  have hlow := pushPart_not_ordinary hx done
  rw [SkipAgrees, skip, foldl_cons]
  by_cases hdone : done = []
  · subst hdone
    have hpush : pushPart [] x = [] := length_eq_zero_iff.1 (Nat.le_zero.1 hlow)
    rw [hpush, nil_append]
    cases xs with
    | nil => simp [walk]
    | cons y ys =>
      rw [walk, foldl_cons]
      by_cases hdot : y = dot
      · -- the component behind comes on top of the one that should be gone
        rw [if_pos hdot, hdot, pushPart_dot]
        cases ys with
        | nil => simp [skip, dot, dotDot]
        | cons z zs =>
          rw [skip, foldl_cons]
          simp [not_agrees_pair, dot, dotDot]
      · rw [if_neg hdot]
        by_cases hdotDot : y = dotDot
        · rw [if_pos hdotDot, if_neg (by simp), hdotDot, pushPart_dotDot]
          simp [SkipAgrees]
        · simp [not_agrees_pair, hdotDot]
  · have hne : walk (done ++ [x]) xs ≠ some (xs.foldl pushPart (pushPart done x)) := by
      have hpos : 0 < done.length := length_pos_iff.2 hdone
      apply not_agrees_longer
      · simp
        omega
      · simp
        omega
    simp [hne, hdone]

/-- When the recursion, which skips a part after each erasure, agrees with the specification. -/
lemma walk_eq_iff (n : Nat) :
    ∀ done xs : List Part, xs.length ≤ n →
      (Agrees done xs ↔ regular done.length xs = true) ∧
        (SkipAgrees done xs ↔ skips done.length xs = true) := by
  induction n with
  | zero =>
    intro done xs h
    have hnil : xs = [] := length_eq_zero_iff.1 (Nat.le_zero.1 h)
    subst hnil
    exact ⟨by simp [Agrees, walk, regular], by simp [not_skipAgrees_nil, skips]⟩
  | succ n ih =>
    intro done xs h
    cases xs with
    | nil => exact ⟨by simp [Agrees, walk, regular], by simp [not_skipAgrees_nil, skips]⟩
    | cons x xs =>
      have hlen : xs.length ≤ n := by simpa using h
      -- what the walk does with the first component is what `regular` asks about
      refine ⟨?_, ?_⟩
      · by_cases hdot : x = dot
        · subst hdot
          rw [agrees_dot, (ih done xs hlen).2]
          simp [regular.eq_def]
        · by_cases hdotDot : x = dotDot
          · subst hdotDot
            rcases eq_nil_or_concat' done with rfl | ⟨init, last, rfl⟩
            · rw [agrees_dotDot_nil, (ih [] xs hlen).1]
              simp [regular, hdot]
            · rw [agrees_dotDot_concat, (ih init xs hlen).2]
              simp [regular, hdot]
          · rw [agrees_ordinary ⟨hdot, hdotDot⟩, (ih _ xs hlen).1]
            simp [regular.eq_def _ (x :: xs), hdot, hdotDot]
      · by_cases hx : Ordinary x
        · rw [skipAgrees_ordinary hx, (ih _ xs hlen).1]
          cases xs with
          | nil => simp [skips, regular, hx]
          | cons y ys => simp [skips, hx]
        · rw [skipAgrees_not_ordinary hx]
          cases xs with
          | nil => simp [skips, hx]
          | cons y ys =>
            have hys := (ih [] ys (by simp at hlen; omega)).2
            simp [skips, hx, hys, and_assoc]

end Walk

/-! ## Components of a path -/

def IsPart (part : Part) : Prop :=
  part ≠ [] ∧ '/' ∉ part

/-- The loop over the characters splits at slashes. -/
lemma splitPath_splitOn (cs : List Char) :
    ∃ first others, cs.splitOn '/' = first :: others ∧ cs.takeWhile (· ≠ '/') = first ∧
      splitPath cs = others.filter (· ≠ []) ∧ ∀ part ∈ cs.splitOn '/', '/' ∉ part := by
  induction cs with
  | nil => exact ⟨[], [], rfl, rfl, rfl, by simp⟩
  | cons c cs ih =>
    rcases ih with ⟨first, others, hsplit, htake, hpath, hmem⟩
    rw [List.splitOn] at hsplit
    -- a separator starts a new piece, any other character belongs to the first one
    by_cases hc : c = '/'
    · subst hc
      have hcons : ('/' :: cs).splitOn '/' = [] :: first :: others := by
        rw [List.splitOn, splitOnP_cons_eq_if_modifyHead, hsplit]
        rfl
      refine ⟨[], first :: others, hcons, by simp, ?_, ?_⟩
      · rw [splitPath, if_pos rfl, htake, hpath]
        by_cases hfirst : first = []
        · simp [hfirst]
        · simp [hfirst]
      · intro part hpart
        rcases mem_cons.1 hpart with rfl | hpart
        · simp
        · exact hmem part hpart
    · have hcons : (c :: cs).splitOn '/' = (c :: first) :: others := by
        rw [List.splitOn, splitOnP_cons_eq_if_modifyHead, hsplit]
        simp [hc]
      refine ⟨c :: first, others, hcons,
        by rw [takeWhile_cons_of_pos (by simpa using hc), htake], ?_, ?_⟩
      · rw [splitPath, if_neg hc, hpath]
      · rw [hcons]
        intro part hpart
        rw [List.splitOn, hsplit] at hmem
        rcases mem_cons.1 hpart with rfl | hpart
        · intro hslash
          rcases mem_cons.1 hslash with h | h
          · exact hc h.symm
          · exact hmem first mem_cons_self h
        · exact hmem part (mem_cons_of_mem _ hpart)

lemma splitPath_components (cs : List Char) : splitPath ('/' :: cs) = components ('/' :: cs) := by
  rcases splitPath_splitOn ('/' :: cs) with ⟨first, others, hsplit, htake, hpath, _⟩
  have hfirst : first = [] := by
    rw [← htake]
    rfl
  rw [hpath, components, hsplit, hfirst]
  rfl

lemma isPart_of_mem_components {path : List Char} {part : Part} (h : part ∈ components path) :
    IsPart part := by
  rcases splitPath_splitOn path with ⟨_, _, _, _, _, hmem⟩
  rw [components, mem_filter] at h
  exact ⟨by simpa using h.2, hmem part h.1⟩

/-- Rendered parts split into themselves. -/
lemma splitPath_render (parts : List Part) (h : ∀ part ∈ parts, IsPart part) :
    splitPath (render parts) = parts := by
  -- a component without a separator in front of it is left out
  have hfront : ∀ (part : Part) (cs : List Char), '/' ∉ part →
      splitPath (part ++ cs) = splitPath cs := by
    intro part cs hpart
    induction part with
    | nil => rfl
    | cons c rest ih =>
      have hc : c ≠ '/' := fun hc => hpart (by simp [hc])
      rw [cons_append, splitPath, if_neg hc]
      exact ih fun hmem => hpart (mem_cons_of_mem _ hmem)
  induction parts with
  | nil => rfl
  | cons part parts ih =>
    rcases h part mem_cons_self with ⟨hne, hslash⟩
    have hrest := ih fun q hq => h q (mem_cons_of_mem _ hq)
    -- the component ends at the next separator or at the end
    have htake : (part ++ render parts).takeWhile (· ≠ '/') = part := by
      have hall : ∀ c ∈ part, decide (c ≠ '/') = true := by
        intro c hc
        rw [decide_eq_true_eq]
        rintro rfl
        exact hslash hc
      rw [takeWhile_append_of_pos hall]
      cases parts with
      | nil => simp [render]
      | cons q qs => simp [render]
    have hcons : render (part :: parts) = '/' :: (part ++ render parts) := by simp [render]
    rw [hcons, splitPath, if_pos rfl, htake, if_neg hne, hfront part _ hslash, hrest]

lemma render_injective {parts parts' : List Part} (h : ∀ part ∈ parts, IsPart part)
    (h' : ∀ part ∈ parts', IsPart part) (heq : render parts = render parts') : parts = parts' := by
  rw [← splitPath_render parts h, heq, splitPath_render parts' h']

/-! ## Absolute paths -/

/-- Nothing but the given parts remains. -/
lemma mem_of_walk (n : Nat) :
    ∀ done xs r : List Part, xs.length ≤ n → walk done xs = some r →
      ∀ part ∈ r, part ∈ done ∨ part ∈ xs := by
  induction n with
  | zero =>
    intro done xs r hn hwalk part hpart
    have hnil : xs = [] := length_eq_zero_iff.1 (Nat.le_zero.1 hn)
    subst hnil
    rw [← Option.some.inj hwalk] at hpart
    exact .inl hpart
  | succ n ih =>
    -- a component that is passed over stays, so it was there as well
    have hskip : ∀ done xs r : List Part, xs.length ≤ n → skip done xs = some r →
        ∀ part ∈ r, part ∈ done ∨ part ∈ xs := by
      intro done xs r hn hskip part hpart
      cases xs with
      | nil => simp [skip] at hskip
      | cons y ys =>
        have hmem := ih (done ++ [y]) ys r (by simp at hn; omega) hskip part hpart
        simpa [or_assoc] using hmem
    intro done xs r hn hwalk part hpart
    cases xs with
    | nil =>
      rw [← Option.some.inj hwalk] at hpart
      exact .inl hpart
    | cons x xs =>
      have hlen : xs.length ≤ n := by simpa using hn
      rw [walk] at hwalk
      split at hwalk
      · exact (hskip done xs r hlen hwalk part hpart).imp_right (mem_cons_of_mem _)
      · split at hwalk
        · split at hwalk
          · have hmem := ih [] xs r hlen hwalk part hpart
            exact .inr (mem_cons_of_mem _ (hmem.resolve_left (by simp)))
          · exact (hskip _ xs r hlen hwalk part hpart).imp
              (fun hmem => (dropLast_subset _) hmem) (mem_cons_of_mem _)
        · have hmem := ih (done ++ [x]) xs r hlen hwalk part hpart
          simpa [or_assoc] using hmem

/-- Neither do dots. -/
lemma mem_foldl_pushPart (xs : List Part) :
    ∀ stack : List Part, (∀ part ∈ stack, Ordinary part) →
      ∀ part ∈ xs.foldl pushPart stack, Ordinary part ∧ (part ∈ stack ∨ part ∈ xs) := by
  induction xs with
  | nil =>
    intro stack hstack part hpart
    exact ⟨hstack part hpart, .inl hpart⟩
  | cons x xs ih =>
    intro stack hstack part hpart
    -- what is on the stack after one component
    have hpush : ∀ q ∈ pushPart stack x, Ordinary q ∧ (q ∈ stack ∨ q = x) := by
      intro q hq
      by_cases hx : Ordinary x
      · rw [pushPart_ordinary hx, mem_append, mem_singleton] at hq
        rcases hq with hq | rfl
        · exact ⟨hstack q hq, .inl hq⟩
        · exact ⟨hx, .inr rfl⟩
      · rw [Ordinary, not_and_or, not_not, not_not] at hx
        rcases hx with rfl | rfl
        · exact ⟨hstack q hq, .inl hq⟩
        · have hmem := dropLast_subset _ hq
          exact ⟨hstack q hmem, .inl hmem⟩
    rcases ih (pushPart stack x) (fun q hq => (hpush q hq).1) part hpart with ⟨hord, hmem | hmem⟩
    · exact ⟨hord, (hpush part hmem).2.imp_right fun h => by simp [h]⟩
    · exact ⟨hord, .inr (mem_cons_of_mem _ hmem)⟩

def normalParts (path : List Char) : List Part :=
  (components path).foldl pushPart []

lemma mem_normalParts {path : List Char} {part : Part} (h : part ∈ normalParts path) :
    Ordinary part ∧ IsPart part := by
  rcases mem_foldl_pushPart (components path) [] (by simp) part h with ⟨hord, hmem⟩
  exact ⟨hord, isPart_of_mem_components (hmem.resolve_left (by simp))⟩

lemma foldl_pushPart_ordinary (xs : List Part) (h : ∀ x ∈ xs, Ordinary x) :
    ∀ stack, xs.foldl pushPart stack = stack ++ xs := by
  induction xs with
  | nil =>
    intro stack
    simp
  | cons x xs ih =>
    intro stack
    rw [foldl_cons, pushPart_ordinary (h x mem_cons_self),
      ih fun y hy => h y (mem_cons_of_mem _ hy)]
    simp

lemma regular_ordinary (xs : List Part) (h : ∀ x ∈ xs, Ordinary x) :
    ∀ n, regular n xs = true := by
  induction xs with
  | nil =>
    intro n
    simp [regular]
  | cons x xs ih =>
    intro n
    have hx := h x mem_cons_self
    simpa [regular.eq_def n (x :: xs), hx.1, hx.2] using
      ih (fun y hy => h y (mem_cons_of_mem _ hy)) (n + 1)

lemma components_render (parts : List Part) (h : ∀ part ∈ parts, IsPart part) :
    components (render parts) = parts := by
  cases parts with
  | nil => rfl
  | cons part parts =>
    exact (splitPath_components _).symm.trans (splitPath_render (part :: parts) h)

lemma components_normalForm (path : List Char) :
    components (normalForm path) = normalParts path :=
  components_render _ fun _ hpart => (mem_normalParts hpart).2

lemma normalForm_normalForm (path : List Char) :
    normalForm (normalForm path) = normalForm path := by
  rw [normalForm, components_normalForm,
    foldl_pushPart_ordinary _ (fun _ hpart => (mem_normalParts hpart).1)]
  rfl

lemma makePathAbsolute_walk (cwd cs : List Char) :
    makePathAbsolute cwd ('/' :: cs) = (walk [] (components ('/' :: cs))).map render := by
  have habsolute : absolutePath cwd ('/' :: cs) = some ('/' :: cs) := by simp [absolutePath]
  rw [makePathAbsolute, habsolute, Option.bind_some, splitPath_components]
  exact congrArg _ (resolveLoop_walk _ [] _ (Nat.lt_succ_self _))

lemma makePathAbsolute_eq_iff (cwd cs : List Char) :
    makePathAbsolute cwd ('/' :: cs) = some (normalForm ('/' :: cs)) ↔
      regular 0 (components ('/' :: cs)) = true := by
  have hwalk_iff := (walk_eq_iff _ [] (components ('/' :: cs)) (Nat.le_refl _)).1
  rw [length_nil, Agrees] at hwalk_iff
  rw [← hwalk_iff, makePathAbsolute_walk]
  constructor
  · intro h
    rcases Option.map_eq_some_iff.1 h with ⟨r, hwalk, hrender⟩
    -- both lists have components only, so they can be read back from the texts
    have hr : ∀ part ∈ r, IsPart part := by
      intro part hpart
      have hmem := mem_of_walk _ [] _ r (Nat.le_refl _) hwalk part hpart
      exact isPart_of_mem_components (hmem.resolve_left (by simp))
    rw [hwalk]
    exact congrArg some (render_injective hr (fun _ hpart => (mem_normalParts hpart).2) hrender)
  · intro h
    rw [h]
    rfl

/-- `make_path_absolute` returns the normal form; it has no dot components, and neither the
normalisation nor the code changes it any more. -/
def Normalises (cwd path : List Char) : Prop :=
  ∃ r, makePathAbsolute cwd path = some r ∧ r = normalForm path ∧
    (∀ part ∈ components r, Ordinary part) ∧ normalForm r = r ∧
    (r ≠ [] → makePathAbsolute cwd r = some r)

/-- For which paths `make_path_absolute` is right. -/
theorem makePathAbsolute_normalises_iff (cwd cs : List Char) :
    Normalises cwd ('/' :: cs) ↔ regular 0 (components ('/' :: cs)) = true := by
  constructor
  · rintro ⟨r, hr, heq, _⟩
    rw [← makePathAbsolute_eq_iff cwd, hr, heq]
  · intro h
    have hordinary : ∀ part ∈ components (normalForm ('/' :: cs)), Ordinary part := by
      intro part hpart
      rw [components_normalForm] at hpart
      exact (mem_normalParts hpart).1
    refine ⟨_, (makePathAbsolute_eq_iff cwd cs).2 h, rfl, hordinary, normalForm_normalForm _, ?_⟩
    intro hne
    cases hr : normalForm ('/' :: cs) with
    | nil => exact absurd hr hne
    | cons c rest =>
      -- a text with components begins with a separator
      have hslash : c = '/' := by
        rw [normalForm] at hr
        cases hparts : (components ('/' :: cs)).foldl pushPart [] with
        | nil =>
          rw [hparts] at hr
          cases hr
        | cons part parts =>
          rw [hparts] at hr
          exact (List.cons.inj hr).1.symm
      have hagain := normalForm_normalForm ('/' :: cs)
      rw [hr] at hagain hordinary
      rw [hslash] at hagain hordinary ⊢
      have hsame := (makePathAbsolute_eq_iff cwd rest).2 (regular_ordinary _ hordinary 0)
      rwa [hagain] at hsame

/-- The path `/././a` becomes `/./a`. -/
theorem makePathAbsolute_dots :
    ¬ ∀ cwd cs : List Char, Normalises cwd ('/' :: cs) := by
  intro h
  rcases h [] ['.', '/', '.', '/', 'a'] with ⟨r, hr, heq, _⟩
  have hcode : makePathAbsolute [] ['/', '.', '/', '.', '/', 'a'] = some ['/', '.', '/', 'a'] := by
    decide
  rw [hcode, heq] at hr
  exact absurd hr (by decide)

end SigmaOS.Zeta
