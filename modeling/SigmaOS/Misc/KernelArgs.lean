import Mathlib.Data.List.Basic

/-!
# Misc.KernelArgs — arguments on the command line

`init` cuts the command line at its spaces by writing zeros over them, and `get_bool` and `get_str`
walk over the tokens that are left.  Both compare a token with the key over the shorter one of the
two lengths only, so what they find is the first token that is a prefix of the key or has the key
as a prefix.

Strings are lists of bytes without their terminating zero, pointers into the command line are
positions in it.
-/

namespace SigmaOS.Misc

open List

/-- `str_int`, with whatever follows it in memory, and `n_pairs`. -/
structure KernelArgs where
  str : List (BitVec 8)
  nPairs : Nat

namespace KernelArgs

def space : BitVec 8 := 32#8

def equalSign : BitVec 8 := 61#8

def textAt (str : List (BitVec 8)) (p : Nat) : List (BitVec 8) :=
  (str.drop p).takeWhile (· != 0#8)

def strlen (str : List (BitVec 8)) (p : Nat) : Nat :=
  (textAt str p).length

def initStep (s : List (BitVec 8) × Nat) (i : Nat) : List (BitVec 8) × Nat :=
  if s.1.getD i 0#8 = space ∨ s.1.getD i 0#8 = 0#8 then (s.1.set i 0#8, s.2 + 1) else s

def init (str : List (BitVec 8)) : KernelArgs :=
  let len := strlen str 0
  let s := (List.range' 0 len).foldl initStep (str, 0)
  -- the last token has no space behind it
  { str := s.1, nPairs := if len ≠ 0 then s.2 + 1 else s.2 }

/-- `memcmp(current, key, min(strlen(current), strlen(key))) == 0`. -/
def sameBytes (str key : List (BitVec 8)) (current : Nat) : Bool :=
  (str.drop current).take (min (strlen str current) key.length) ==
    key.take (min (strlen str current) key.length)

/-- The loop that `get_bool` and `get_str` have in common, with the number of rounds to go. -/
def search (str key : List (BitVec 8)) : Nat → Nat → Option Nat
  | 0, _ => none
  | n + 1, current =>
    if sameBytes str key current then
      some current
    else
      search str key n (current + strlen str current + 1)

def getBool (args : KernelArgs) (key : List (BitVec 8)) : Bool :=
  (search args.str key args.nPairs 0).isSome

/-- `get_str`: the position behind the key and the equal sign. -/
def getStr (args : KernelArgs) (key : List (BitVec 8)) : Option Nat :=
  (search args.str key args.nPairs 0).map fun current => current + key.length + 1

/-! ## Tokens -/

/-- The command line, cut at its spaces. -/
def tokens (line : List (BitVec 8)) : List (List (BitVec 8)) :=
  if line = [] then [] else line.splitOn space

def isPair (key token : List (BitVec 8)) : Bool :=
  (key ++ [equalSign]).isPrefixOf token

def compatible (key token : List (BitVec 8)) : Bool :=
  token.isPrefixOf key || key.isPrefixOf token

/-- Where the first token with the property starts, if the first one of all starts at `p`. -/
def position (P : List (BitVec 8) → Bool) : Nat → List (List (BitVec 8)) → Option Nat
  | _, [] => none
  | p, t :: ts => if P t then some p else position P (p + t.length + 1) ts

def terminated (ts : List (List (BitVec 8))) : List (BitVec 8) :=
  ts.flatMap (· ++ [0#8])

section Init

variable {line : List (BitVec 8)}

lemma textAt_append {str t ys : List (BitVec 8)} {p : Nat} (ht : 0#8 ∉ t)
    (h : str.drop p = t ++ 0#8 :: ys) : textAt str p = t := by
  have hall : ∀ c ∈ t, (c != 0#8) = true := by
    intro c hc
    simp only [bne_iff_ne, ne_eq]
    rintro rfl
    exact ht hc
  rw [textAt, h, takeWhile_append_of_pos hall]
  simp

/-- The loop of `init` replaces spaces by zeros and counts them. -/
lemma foldl_initStep (hline : 0#8 ∉ line) (rest done : List (BitVec 8)) (n : Nat) :
    (List.range' done.length line.length).foldl initStep (done ++ line ++ rest, n) =
      (done ++ line.map (fun c => if c = space then 0#8 else c) ++ rest, n + line.count space) := by
  induction line generalizing done n with
  | nil => simp
  | cons c cs ih =>
    have hc : c ≠ 0#8 := fun h => hline (by simp [h])
    have hcs : 0#8 ∉ cs := fun h => hline (mem_cons_of_mem _ h)
    have hget : (done ++ c :: cs ++ rest).getD done.length 0#8 = c := by simp
    rw [length_cons, List.range'_succ, foldl_cons, initStep, hget]
    -- a space becomes a zero and is counted, any other byte stays
    by_cases hspace : c = space
    · have hset : (done ++ c :: cs ++ rest).set done.length 0#8 =
          (done ++ [0#8]) ++ cs ++ rest := by
        simp
      rw [if_pos (.inl hspace)]
      have hnext := ih hcs (done ++ [0#8]) (n + 1)
      rw [length_append] at hnext
      rw [hset, show done.length + 1 = done.length + [0#8].length from rfl, hnext]
      simp [hspace, Nat.add_assoc, Nat.add_comm 1]
    · have hmove : done ++ c :: cs ++ rest = (done ++ [c]) ++ cs ++ rest := by simp
      rw [if_neg (by simp [hspace, hc])]
      have hnext := ih hcs (done ++ [c]) n
      rw [length_append] at hnext
      rw [hmove, show done.length + 1 = done.length + [c].length from rfl, hnext]
      simp [hspace]

/-- The line with zeros for spaces is the list of its tokens, each ended by a zero. -/
lemma splitOn_space (line : List (BitVec 8)) :
    line.map (fun c => if c = space then 0#8 else c) ++ [0#8] =
        terminated (line.splitOn space) ∧
      (line.splitOn space).length = line.count space + 1 ∧
      ∀ t ∈ line.splitOn space, ∀ c ∈ t, c ∈ line := by
  induction line with
  | nil => simp [terminated]
  | cons c cs ih =>
    rcases hsplit : cs.splitOn space with _ | ⟨t, ts⟩
    · exact absurd hsplit (splitOn_ne_nil _ _)
    · rw [hsplit] at ih
      rcases ih with ⟨hmap, hlength, hmem⟩
      -- a space opens a new piece, any other byte goes to the first one
      have hcons : (c :: cs).splitOn space =
          if c = space then [] :: t :: ts else (c :: t) :: ts := by
        rw [List.splitOn] at hsplit ⊢
        rw [splitOnP_cons_eq_if_modifyHead, hsplit]
        by_cases hc : c = space
        · simp [hc]
        · simp [hc]
      rw [hcons]
      by_cases hc : c = space
      · rw [if_pos hc]
        refine ⟨by simpa [hc, terminated] using hmap, by simpa [hc] using hlength, ?_⟩
        intro u hu b hb
        rcases mem_cons.1 hu with rfl | hu
        · cases hb
        · exact mem_cons_of_mem _ (hmem u hu b hb)
      · rw [if_neg hc]
        refine ⟨by simpa [hc, terminated] using hmap, by simpa [hc] using hlength, ?_⟩
        intro u hu b hb
        rcases mem_cons.1 hu with rfl | hu
        · rcases mem_cons.1 hb with rfl | hb
          · exact mem_cons_self
          · exact mem_cons_of_mem _ (hmem t mem_cons_self b hb)
        · exact mem_cons_of_mem _ (hmem u (mem_cons_of_mem _ hu) b hb)

lemma nul_notMem_tokens (hline : 0#8 ∉ line) : ∀ t ∈ tokens line, 0#8 ∉ t := by
  intro t ht hzero
  rw [tokens] at ht
  split at ht
  · cases ht
  · exact hline ((splitOn_space line).2.2 t ht _ hzero)

/-- What `init` leaves, in terms of tokens. -/
lemma init_spec (hline : 0#8 ∉ line) (rest : List (BitVec 8)) :
    (init (line ++ 0#8 :: rest)).nPairs = (tokens line).length ∧
      (line ≠ [] → (init (line ++ 0#8 :: rest)).str = terminated (tokens line) ++ rest) := by
  have hlen : strlen (line ++ 0#8 :: rest) 0 = line.length := by
    rw [strlen, textAt_append hline rfl]
  have hloop := foldl_initStep hline (0#8 :: rest) [] 0
  rw [nil_append, nil_append, length_nil, Nat.zero_add] at hloop
  rcases splitOn_space line with ⟨hmap, hlength, _⟩
  -- the empty line has no token at all, not an empty one
  cases line with
  | nil => exact ⟨by simp [init, strlen, textAt, tokens], fun h => absurd rfl h⟩
  | cons c cs =>
    have htokens : tokens (c :: cs) = (c :: cs).splitOn space := if_neg (cons_ne_nil _ _)
    have hstr : (init (c :: cs ++ 0#8 :: rest)).str =
        (c :: cs).map (fun c => if c = space then 0#8 else c) ++ 0#8 :: rest := by
      rw [init, hlen]
      exact congrArg Prod.fst hloop
    have hpairs : (init (c :: cs ++ 0#8 :: rest)).nPairs = (c :: cs).count space + 1 := by
      simp only [init]
      rw [hlen, if_pos (by simp), hloop]
    rw [htokens, hpairs, hlength, hstr]
    refine ⟨rfl, fun _ => ?_⟩
    rw [← hmap, append_assoc]
    rfl

end Init

section Search

variable {str key rest : List (BitVec 8)}

/-- The comparison stops at the end of the shorter text. -/
lemma sameBytes_iff {t ys : List (BitVec 8)} {p : Nat} (ht : 0#8 ∉ t)
    (h : str.drop p = t ++ 0#8 :: ys) : sameBytes str key p = compatible key t := by
  have htext := textAt_append ht h
  -- the comparison does not reach the zero behind the token
  have hcut : (t ++ 0#8 :: ys).take (min t.length key.length) = t.take key.length := by
    rw [take_append_of_le_length (Nat.min_le_left _ _), Nat.min_comm, ← take_take,
      take_length]
  have hkey : key.take (min t.length key.length) = key.take t.length := by
    rw [← take_take, take_length]
  rw [Bool.eq_iff_iff, sameBytes, strlen, htext, h, hcut, hkey, compatible, beq_iff_eq,
    Bool.or_eq_true, isPrefixOf_iff_prefix, isPrefixOf_iff_prefix]
  -- the shorter one is not cut, and it is the other's prefix
  rcases Nat.le_total t.length key.length with hle | hle
  · rw [take_of_length_le hle, ← prefix_iff_eq_take]
    refine ⟨.inl, ?_⟩
    rintro (hpre | hpre)
    · exact hpre
    · exact hpre.eq_of_length_le hle ▸ prefix_rfl
  · rw [take_of_length_le hle, eq_comm, ← prefix_iff_eq_take]
    refine ⟨.inr, ?_⟩
    rintro (hpre | hpre)
    · exact hpre.eq_of_length_le hle ▸ prefix_rfl
    · exact hpre

lemma drop_terminated {t : List (BitVec 8)} {ts : List (List (BitVec 8))} {p : Nat}
    (h : str.drop p = terminated (t :: ts) ++ rest) :
    str.drop p = t ++ 0#8 :: (terminated ts ++ rest) ∧
      str.drop (p + t.length + 1) = terminated ts ++ rest := by
  have hsplit : str.drop p = t ++ 0#8 :: (terminated ts ++ rest) := by
    rw [h]
    simp [terminated]
  refine ⟨hsplit, ?_⟩
  rw [Nat.add_assoc, ← drop_drop, hsplit, ← drop_drop, drop_left]
  rfl

/-- Over NUL-terminated tokens the search stops at the first compatible one. -/
lemma search_terminated (ts : List (List (BitVec 8))) :
    ∀ p, (∀ t ∈ ts, 0#8 ∉ t) → str.drop p = terminated ts ++ rest →
      search str key ts.length p = position (compatible key) p ts := by
  induction ts with
  | nil =>
    intro p _ _
    rfl
  | cons t ts ih =>
    intro p hts h
    have ht : 0#8 ∉ t := hts t mem_cons_self
    rcases drop_terminated h with ⟨hsplit, hnext⟩
    -- the round looks at `t`, and goes on behind the zero that ends it
    rw [length_cons, search, position, sameBytes_iff ht hsplit, strlen,
      textAt_append ht hsplit]
    split
    · rfl
    · exact ih _ (fun u hu => hts u (mem_cons_of_mem _ hu)) hnext

lemma search_init {line : List (BitVec 8)} (hline : 0#8 ∉ line) (rest key : List (BitVec 8)) :
    search (init (line ++ 0#8 :: rest)).str key (init (line ++ 0#8 :: rest)).nPairs 0 =
      position (compatible key) 0 (tokens line) := by
  rcases init_spec hline rest with ⟨hpairs, hstr⟩
  rw [hpairs]
  by_cases hempty : line = []
  · subst hempty
    rfl
  · exact search_terminated _ 0 (nul_notMem_tokens hline) (hstr hempty)

end Search

section Position

variable {P Q : List (BitVec 8) → Bool}

lemma position_isSome (ts : List (List (BitVec 8))) :
    ∀ p, (position P p ts).isSome = ts.any P := by
  induction ts with
  | nil =>
    intro p
    rfl
  | cons t ts ih =>
    intro p
    by_cases ht : P t = true
    · simp [position, ht]
    · simp [position, ht, ih]

lemma le_position (ts : List (List (BitVec 8))) : ∀ p q, position P p ts = some q → p ≤ q := by
  induction ts with
  | nil =>
    intro p q h
    cases h
  | cons t ts ih =>
    intro p q h
    rw [position] at h
    split at h
    · exact Nat.le_of_eq (Option.some.inj h)
    · have hle := ih _ _ h
      omega

/-- A property and a wider one have the same first token exactly if the first token with the wider
one has the other one too. -/
lemma position_eq_iff (hsub : ∀ t, Q t = true → P t = true) (ts : List (List (BitVec 8))) :
    ∀ p, position P p ts = position Q p ts ↔ ∀ t, ts.find? P = some t → Q t = true := by
  induction ts with
  | nil =>
    intro p
    simp [position]
  | cons t ts ih =>
    intro p
    rw [position, position, List.find?_cons]
    by_cases hP : P t = true
    · by_cases hQ : Q t = true
      · simp [hP, hQ]
      · -- the token is found by the one search only, and what the other finds lies behind it
        have hne : position Q (p + t.length + 1) ts ≠ some p := by
          intro h
          have hle := le_position ts _ _ h
          omega
        simp [hP, hQ, hne.symm]
    · have hQ : ¬ Q t = true := fun h => hP (hsub t h)
      simpa [hP, hQ] using ih (p + t.length + 1)

/-- The text behind the key of the first token that passes. -/
lemma position_textAt {str rest : List (BitVec 8)} (k : Nat) (ts : List (List (BitVec 8))) :
    ∀ p, (∀ t ∈ ts, 0#8 ∉ t) → (∀ t, P t = true → k ≤ t.length) →
      str.drop p = terminated ts ++ rest →
      (position P p ts).map (fun q => textAt str (q + k)) = (ts.find? P).map (List.drop k) := by
  induction ts with
  | nil =>
    intro p _ _ _
    rfl
  | cons t ts ih =>
    intro p hts hk h
    have ht : 0#8 ∉ t := hts t mem_cons_self
    rcases drop_terminated h with ⟨hsplit, hnext⟩
    rw [position, List.find?_cons]
    -- the rest of the token ends with the same zero
    by_cases hP : P t = true
    · have hdrop : str.drop (p + k) = t.drop k ++ 0#8 :: (terminated ts ++ rest) := by
        rw [← drop_drop, hsplit, drop_append_of_le_length (hk t hP)]
      have htext := textAt_append (fun hmem => ht (mem_of_mem_drop hmem)) hdrop
      simp [hP, htext]
    · simpa [hP] using ih _ (fun u hu => hts u (mem_cons_of_mem _ hu)) hk hnext

end Position

/-! ## Which answers are right -/

/-- `get_bool` tells whether the key is one of the tokens. -/
def BoolRight (line rest key : List (BitVec 8)) : Prop :=
  (init (line ++ 0#8 :: rest)).getBool key = true ↔ key ∈ tokens line

/-- `get_str` points behind the equal sign of the first token `key=value`. -/
def StrRight (line rest key : List (BitVec 8)) : Prop :=
  (init (line ++ 0#8 :: rest)).getStr key =
    (position (isPair key) 0 (tokens line)).map fun p => p + key.length + 1

lemma compatible_self (key : List (BitVec 8)) : compatible key key = true := by
  simp [compatible]

lemma compatible_of_isPair {key t : List (BitVec 8)} (h : isPair key t = true) :
    compatible key t = true := by
  rw [isPair, isPrefixOf_iff_prefix] at h
  rw [compatible, Bool.or_eq_true, isPrefixOf_iff_prefix, isPrefixOf_iff_prefix]
  exact .inr ((prefix_append _ _).trans h)

lemma length_of_isPair {key t : List (BitVec 8)} (h : isPair key t = true) :
    key.length + 1 ≤ t.length := by
  rw [isPair, isPrefixOf_iff_prefix] at h
  simpa using h.length_le

/-- `get_bool` is right exactly if the key is a token, or no token is compatible with it; `get_str`
is right exactly if the first compatible token has the form `key=value`, and the text it points to is
the value then. -/
theorem kernelArgs_right_iff (line rest key : List (BitVec 8)) (hline : 0#8 ∉ line) :
    (BoolRight line rest key ↔ ((∃ t ∈ tokens line, compatible key t) → key ∈ tokens line)) ∧
      (StrRight line rest key ↔
        ∀ t, (tokens line).find? (compatible key) = some t → isPair key t) ∧
      (StrRight line rest key →
        ((init (line ++ 0#8 :: rest)).getStr key).map
            (textAt (init (line ++ 0#8 :: rest)).str) =
          ((tokens line).find? (isPair key)).map (List.drop (key.length + 1))) := by
  have hsearch := search_init hline rest key
  refine ⟨?_, ?_, ?_⟩
  · rw [BoolRight, getBool, hsearch, position_isSome, List.any_eq_true]
    refine ⟨Iff.mp, fun h => ⟨h, fun hmem => ⟨key, hmem, compatible_self key⟩⟩⟩
  · rw [StrRight, getStr, hsearch, ← position_eq_iff (fun _ => compatible_of_isPair) _ 0]
    -- both answers are positions of tokens, moved by the same amount
    have hinj : Function.Injective fun p : Nat => p + key.length + 1 := by
      intro p q hpq
      simpa using hpq
    exact (Option.map_injective hinj).eq_iff
  · intro hright
    rw [hright, Option.map_map]
    by_cases hempty : line = []
    · subst hempty
      rfl
    · exact position_textAt (key.length + 1) _ 0 (nul_notMem_tokens hline)
        (fun _ => length_of_isPair) ((init_spec hline rest).2 hempty)

/-- The command line `debug=vga` with the key `debug`. -/
theorem kernelArgs_right_debug :
    StrRight [100#8, 101#8, 98#8, 117#8, 103#8, 61#8, 118#8, 103#8, 97#8] []
      [100#8, 101#8, 98#8, 117#8, 103#8] := by
  apply (kernelArgs_right_iff [100#8, 101#8, 98#8, 117#8, 103#8, 61#8, 118#8, 103#8, 97#8] []
    [100#8, 101#8, 98#8, 117#8, 103#8] (by decide)).2.1.2
  have hfind : (tokens [100#8, 101#8, 98#8, 117#8, 103#8, 61#8, 118#8, 103#8, 97#8]).find?
      (compatible [100#8, 101#8, 98#8, 117#8, 103#8]) =
        some [100#8, 101#8, 98#8, 117#8, 103#8, 61#8, 118#8, 103#8, 97#8] := by
    decide
  intro t ht
  rw [hfind] at ht
  rw [← Option.some.inj ht]
  decide

/-- With the command line `tsd ` (the key and a space, as the documentation has it), the last token
is empty, and `nosmap` is found as well. -/
theorem kernelArgs_empty_token :
    ¬ ∀ line rest key : List (BitVec 8), 0#8 ∉ line → key ≠ [] → 0#8 ∉ key → space ∉ key →
      equalSign ∉ key →
      ((init (line ++ 0#8 :: rest)).getBool key = true ↔ key ∈ tokens line) ∧
        ((init (line ++ 0#8 :: rest)).getStr key).map (textAt (init (line ++ 0#8 :: rest)).str) =
          ((tokens line).find? (isPair key)).map (List.drop (key.length + 1)) := by
  intro h
  have hbool := (h [116#8, 115#8, 100#8, 32#8] [] [110#8, 111#8, 115#8, 109#8, 97#8, 112#8]
    (by decide) (by decide) (by decide) (by decide) (by decide)).1
  exact absurd (hbool.1 (by decide)) (by decide)

end KernelArgs
end SigmaOS.Misc
