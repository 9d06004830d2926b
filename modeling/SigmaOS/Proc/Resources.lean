import Mathlib.Data.Finset.Basic
import SigmaOS.Lib.Run
import SigmaOS.Mm.Pmm
import SigmaOS.Proc.Thread

/-!
# Proc.Resources — the data frames of threads

`thread::resources.frames` lists the frames a thread was given for its memory, by `map_anonymous`,
`expand_thread_stack`, `get_phys_region` and, for the child, by `fork`.  `kill` releases them, and
the slot with its list waits for the next thread.

* `Allocator` answers from a list given in advance; an answer that is outstanding ends the run,
  since the allocator never hands out an outstanding frame.  `misuse` records that a frame was
  released while it was in the free set.
* `Pool.step` is one call; tables are left out, and so is how many pages a call maps: the numbers
  of pages (those the loop of `map_anonymous` gets to, those present in the lower half of a parent)
  are arguments.
-/

namespace SigmaOS.Proc.Process

open Lib List Option
open Mm.Pmm (blockSize)

/-! ## The frame allocator -/

structure Allocator where
  supply : List Nat
  outstanding : Finset Nat
  misuse : Bool

namespace Allocator

def hand (a : Allocator) (rest fs : List Nat) : Option Allocator :=
  if ∀ f ∈ fs, f ∉ a.outstanding then
    some { a with supply := rest, outstanding := a.outstanding ∪ fs.toFinset }
  else
    none

def allocBlock (a : Allocator) : Option (Nat × Allocator) :=
  match a.supply with
  | [] => none
  | f :: rest =>
    match a.hand rest [f] with
    | none => none
    | some a => some (f, a)

def region (base n : Nat) : List Nat :=
  (List.range n).map fun i => base + blockSize * i

def allocNBlocks (n : Nat) (a : Allocator) : Option (Nat × Allocator) :=
  match a.supply with
  | [] => none
  | base :: rest =>
    match a.hand rest (region base n) with
    | none => none
    | some a => some (base, a)

def freeBlock (a : Allocator) (f : Nat) : Allocator :=
  { a with
    outstanding := a.outstanding.erase f
    misuse := a.misuse || decide (f ∉ a.outstanding) }

end Allocator

/-! ## Threads and their frames -/

structure Slot where
  state : ThreadState
  frames : List Nat

structure Pool where
  slots : Nat → Slot
  count : Nat
  allocator : Allocator

namespace Pool

def Live (p : Pool) (tid : Nat) : Prop :=
  tid < p.count ∧ (p.slots tid).state ≠ .disabled

instance (p : Pool) (tid : Nat) : Decidable (p.Live tid) :=
  inferInstanceAs (Decidable (_ ∧ _))

def setSlot (p : Pool) (tid : Nat) (slot : Slot) : Pool :=
  { p with slots := Function.update p.slots tid slot }

def pushFrames (p : Pool) (tid : Nat) (fs : List Nat) : Pool :=
  p.setSlot tid { p.slots tid with frames := (p.slots tid).frames ++ fs }

/-- The loops of `map_anonymous`, `expand_thread_stack` and `fork_address_space`: one block for each
of `n` pages. -/
def addBlocks (tid : Nat) : Nat → Pool → Option Pool
  | 0, p => some p
  | n + 1, p =>
    match p.allocator.allocBlock with
    | none => none
    | some (f, a) => addBlocks tid n ({ p with allocator := a }.pushFrames tid [f])

/-- `thread::map_anonymous` without a physical address, for a loop that gets to `pages` pages. -/
def mapAnonymous (tid pages : Nat) : Pool → Option Pool := addBlocks tid pages

def expandThreadStack (tid pages : Nat) : Pool → Option Pool := addBlocks tid pages

def getPhysRegion (tid pages : Nat) (p : Pool) : Option Pool :=
  match p.allocator.allocNBlocks pages with
  | none => none
  | some (base, a) => some ({ p with allocator := a }.pushFrames tid (Allocator.region base pages))

def nextSlot (p : Pool) : Nat :=
  freeSlot (fun i => (p.slots i).state) p.count

/-- `create_blocked_thread`: a slot that is reused keeps its list, as `create_thread_int` does not
touch `resources`. -/
def createBlockedThread (p : Pool) : Pool :=
  let tid := p.nextSlot
  { p with count := max p.count (tid + 1) }.setSlot tid
    { state := .silent, frames := if tid < p.count then (p.slots tid).frames else [] }

def kill (tid : Nat) (p : Pool) : Pool :=
  { p with allocator := (p.slots tid).frames.foldl Allocator.freeBlock p.allocator }.setSlot tid
    { p.slots tid with state := .disabled }

/-- `fork`, with `pages` pages present in the lower half of the parent; the child is woken up at the
end. -/
def fork (pages : Nat) (p : Pool) : Option Pool :=
  match addBlocks p.nextSlot pages p.createBlockedThread with
  | none => none
  | some q => some (q.setSlot p.nextSlot { q.slots p.nextSlot with state := .idle })

end Pool

inductive ResourceOp
  | create
  | mapAnonymous (tid pages : Nat)
  | expandThreadStack (tid pages : Nat)
  | getPhysRegion (tid pages : Nat)
  | fork (tid pages : Nat)
  | kill (tid : Nat)

namespace Pool

def step (p : Pool) : ResourceOp → Option Pool
  | .create => some p.createBlockedThread
  | .mapAnonymous tid pages => if p.Live tid then p.mapAnonymous tid pages else none
  | .expandThreadStack tid pages => if p.Live tid then p.expandThreadStack tid pages else none
  | .getPhysRegion tid pages => if p.Live tid then p.getPhysRegion tid pages else none
  | .fork tid pages => if p.Live tid then p.fork pages else none
  | .kill tid => if p.Live tid then some (p.kill tid) else none

def boot (supply : List Nat) (outstanding : Finset Nat) : Pool :=
  { slots := fun _ => { state := .silent, frames := [] }
    count := 1
    allocator := { supply := supply, outstanding := outstanding, misuse := false } }

def ReusesClean (p : Pool) : ResourceOp → Prop
  | .create => p.nextSlot < p.count → (p.slots p.nextSlot).frames = []
  | .fork _ _ => p.nextSlot < p.count → (p.slots p.nextSlot).frames = []
  | _ => True

/-- No frame was released twice for one allocation, no frame is listed by two live threads, and no
frame of a live thread is free. -/
structure Safe (p : Pool) : Prop where
  once : p.allocator.misuse = false
  apart : ∀ i j f, p.Live i → p.Live j → i ≠ j → f ∈ (p.slots i).frames → f ∉ (p.slots j).frames
  taken : ∀ i f, p.Live i → f ∈ (p.slots i).frames → f ∈ p.allocator.outstanding

end Pool

namespace Allocator

variable {a a' : Allocator} {rest fs : List Nat}

/-- What is handed out was free and is outstanding afterwards. -/
structure Handed (a : Allocator) (fs : List Nat) (a' : Allocator) : Prop where
  fresh : ∀ f ∈ fs, f ∉ a.outstanding
  outstanding : a'.outstanding = a.outstanding ∪ fs.toFinset
  misuse : a'.misuse = a.misuse

lemma hand_handed (h : a.hand rest fs = some a') : Handed a fs a' := by
  by_cases hfresh : ∀ f ∈ fs, f ∉ a.outstanding
  · rw [hand, if_pos hfresh] at h
    rw [← Option.some.inj h]
    exact ⟨hfresh, rfl, rfl⟩
  · rw [hand, if_neg hfresh] at h
    exact absurd h (by simp)

lemma allocBlock_handed {f : Nat} (h : a.allocBlock = some (f, a')) : Handed a [f] a' := by
  unfold allocBlock at h
  split at h
  · cases h
  split at h
  · cases h
  next hhand =>
  cases h
  exact hand_handed hhand

lemma allocNBlocks_handed {base n : Nat} (h : a.allocNBlocks n = some (base, a')) :
    Handed a (region base n) a' := by
  unfold allocNBlocks at h
  split at h
  · cases h
  split at h
  · cases h
  next hhand =>
  cases h
  exact hand_handed hhand

lemma region_nodup (base n : Nat) : (region base n).Nodup := by
  refine List.Nodup.map ?_ nodup_range
  intro i j hij
  have hmul : blockSize * i = blockSize * j := Nat.add_left_cancel hij
  exact Nat.eq_of_mul_eq_mul_left (by decide) hmul

/-- Distinct frames that are outstanding are freed without misuse. -/
lemma freeBlocks_spec {fs : List Nat} {a : Allocator} (hnodup : fs.Nodup)
    (hout : ∀ f ∈ fs, f ∈ a.outstanding) :
    (fs.foldl freeBlock a).misuse = a.misuse ∧
      ∀ g, g ∈ (fs.foldl freeBlock a).outstanding ↔ g ∈ a.outstanding ∧ g ∉ fs := by
  induction fs generalizing a with
  | nil => exact ⟨rfl, fun g => by simp⟩
  | cons f fs ih =>
    rcases nodup_cons.1 hnodup with ⟨hnotin, hnodup'⟩
    have hf : f ∈ a.outstanding := hout f mem_cons_self
    have hrest : ∀ g ∈ fs, g ∈ (a.freeBlock f).outstanding := by
      intro g hg
      refine Finset.mem_erase.2 ⟨?_, hout g (mem_cons_of_mem _ hg)⟩
      rintro rfl
      exact hnotin hg
    rcases ih hnodup' hrest with ⟨hmisuse, hmem⟩
    refine ⟨?_, ?_⟩
    · rw [foldl_cons, hmisuse]
      simp [freeBlock, hf]
    · intro g
      rw [foldl_cons, hmem g]
      simp only [freeBlock, Finset.mem_erase, mem_cons, not_or]
      constructor
      · rintro ⟨⟨hne, hg⟩, hnot⟩
        exact ⟨hg, hne, hnot⟩
      · rintro ⟨hg, hne, hnot⟩
        exact ⟨⟨hne, hg⟩, hnot⟩

end Allocator

namespace Pool

/-- The frames of the live threads are theirs alone, and each is listed once. -/
structure Owned (p : Pool) : Prop extends Safe p where
  nodup : ∀ i, p.Live i → (p.slots i).frames.Nodup

variable {p q : Pool} {tid : Nat} {slot : Slot} {fs : List Nat} {a : Allocator}

@[simp] lemma setSlot_count : (p.setSlot tid slot).count = p.count := rfl

@[simp] lemma setSlot_allocator : (p.setSlot tid slot).allocator = p.allocator := rfl

@[simp] lemma setSlot_same : (p.setSlot tid slot).slots tid = slot := by
  simp [setSlot]

variable {i n : Nat}

lemma setSlot_of_ne (h : i ≠ tid) : (p.setSlot tid slot).slots i = p.slots i := by
  simp [setSlot, h]

lemma setSlot_live (hstate : slot.state ≠ .disabled) (htid : p.Live tid) :
    (p.setSlot tid slot).Live i ↔ p.Live i := by
  by_cases hi : i = tid
  · subst hi
    simp [Live, hstate, htid.1, htid.2]
  · simp [Live, setSlot_of_ne hi]

lemma pushFrames_live (htid : p.Live tid) : (p.pushFrames tid fs).Live i ↔ p.Live i :=
  setSlot_live htid.2 htid

/-- A thread gets frames. -/
lemma Owned.push (h : p.Owned) (htid : p.Live tid) (hhand : p.allocator.Handed fs a)
    (hnodup : fs.Nodup) : ({ p with allocator := a }.pushFrames tid fs).Owned := by
  have hlive : ∀ i, ({ p with allocator := a }.pushFrames tid fs).Live i ↔ p.Live i :=
    fun i => pushFrames_live (p := { p with allocator := a }) htid
  have hsame : ({ p with allocator := a }.pushFrames tid fs).slots tid =
      { p.slots tid with frames := (p.slots tid).frames ++ fs } := setSlot_same
  have hother : ∀ i, i ≠ tid →
      ({ p with allocator := a }.pushFrames tid fs).slots i = p.slots i :=
    fun i hi => setSlot_of_ne hi
  -- the new frames were free, so no live thread lists them
  have hnew : ∀ i f, p.Live i → f ∈ fs → f ∉ (p.slots i).frames :=
    fun i f hi hf hin => hhand.fresh f hf (h.taken i f hi hin)
  refine ⟨⟨?_, ?_, ?_⟩, ?_⟩
  · exact hhand.misuse.trans h.once
  · intro i j f hi hj hij hfi hfj
    have hi' := (hlive i).1 hi
    have hj' := (hlive j).1 hj
    by_cases hit : i = tid
    · subst hit
      rw [hother j (Ne.symm hij)] at hfj
      rw [hsame] at hfi
      rcases mem_append.1 hfi with hold | hf
      · exact h.apart i j f hi' hj' hij hold hfj
      · exact hnew j f hj' hf hfj
    · rw [hother i hit] at hfi
      by_cases hjt : j = tid
      · subst hjt
        rw [hsame] at hfj
        rcases mem_append.1 hfj with hold | hf
        · exact h.apart i j f hi' hj' hij hfi hold
        · exact hnew i f hi' hf hfi
      · rw [hother j hjt] at hfj
        exact h.apart i j f hi' hj' hij hfi hfj
  · intro i f hi hfi
    show f ∈ a.outstanding
    rw [hhand.outstanding]
    by_cases hit : i = tid
    · subst hit
      rw [hsame] at hfi
      rcases mem_append.1 hfi with hold | hf
      · exact Finset.mem_union_left _ (h.taken i f htid hold)
      · exact Finset.mem_union_right _ (mem_toFinset.2 hf)
    · rw [hother i hit] at hfi
      exact Finset.mem_union_left _ (h.taken i f ((hlive i).1 hi) hfi)
  · intro i hi
    by_cases hit : i = tid
    · subst hit
      rw [hsame]
      refine nodup_append'.2 ⟨h.nodup i htid, hnodup, ?_⟩
      intro f hold hf
      exact hnew i f htid hf hold
    · rw [hother i hit]
      exact h.nodup i ((hlive i).1 hi)

lemma Owned.addBlocks {n : Nat} {p : Pool} (h : p.Owned) (htid : p.Live tid)
    (hrun : Pool.addBlocks tid n p = some q) : q.Owned ∧ q.Live tid := by
  induction n generalizing p with
  | zero =>
    cases hrun
    exact ⟨h, htid⟩
  | succ n ih =>
    unfold Pool.addBlocks at hrun
    split at hrun
    · cases hrun
    next f b halloc =>
    refine ih (h.push htid (Allocator.allocBlock_handed halloc) (nodup_singleton f)) ?_ hrun
    exact (pushFrames_live (p := { p with allocator := b }) htid).2 htid

lemma Owned.getPhysRegion (h : p.Owned) (htid : p.Live tid)
    (hrun : p.getPhysRegion tid n = some q) : q.Owned := by
  unfold Pool.getPhysRegion at hrun
  split at hrun
  · cases hrun
  next base b halloc =>
  cases hrun
  exact h.push htid (Allocator.allocNBlocks_handed halloc) (Allocator.region_nodup base n)

/-- A slot whose list is empty is used again. -/
lemma Owned.createBlockedThread (h : p.Owned)
    (hclean : p.nextSlot < p.count → (p.slots p.nextSlot).frames = []) :
    p.createBlockedThread.Owned ∧ p.createBlockedThread.Live p.nextSlot := by
  have hsame : p.createBlockedThread.slots p.nextSlot = { state := .silent, frames := [] } := by
    by_cases hlt : p.nextSlot < p.count
    · simp [Pool.createBlockedThread, hlt, hclean hlt]
    · simp [Pool.createBlockedThread, hlt]
  have hother : ∀ i, i ≠ p.nextSlot → p.createBlockedThread.slots i = p.slots i :=
    fun i hi => setSlot_of_ne hi
  have hcount : p.createBlockedThread.count = max p.count (p.nextSlot + 1) := rfl
  have hle : p.nextSlot ≤ p.count := by
    rcases freeSlot_cases (fun i => (p.slots i).state) p.count with ⟨hlt, _⟩ | heq
    · exact Nat.le_of_lt hlt
    · exact Nat.le_of_eq heq
  -- apart from the new one, the live threads are those there were
  have hold : ∀ i, i ≠ p.nextSlot → p.createBlockedThread.Live i → p.Live i := by
    rintro i hi ⟨hlt, hstate⟩
    rw [hother i hi] at hstate
    exact ⟨by omega, hstate⟩
  have hempty : ∀ f, f ∉ (p.createBlockedThread.slots p.nextSlot).frames := by
    intro f
    rw [hsame]
    exact not_mem_nil
  refine ⟨⟨⟨h.once, ?_, ?_⟩, ?_⟩, ?_⟩
  · intro i j f hi hj hij hfi hfj
    by_cases hin : i = p.nextSlot
    · exact hempty f (hin ▸ hfi)
    by_cases hjn : j = p.nextSlot
    · exact hempty f (hjn ▸ hfj)
    rw [hother i hin] at hfi
    rw [hother j hjn] at hfj
    exact h.apart i j f (hold i hin hi) (hold j hjn hj) hij hfi hfj
  · intro i f hi hfi
    by_cases hin : i = p.nextSlot
    · exact absurd (hin ▸ hfi) (hempty f)
    rw [hother i hin] at hfi
    exact h.taken i f (hold i hin hi) hfi
  · intro i hi
    by_cases hin : i = p.nextSlot
    · rw [hin, hsame]
      exact nodup_nil
    rw [hother i hin]
    exact h.nodup i (hold i hin hi)
  · refine ⟨?_, ?_⟩
    · omega
    · rw [hsame]
      simp

/-- The state of a thread has nothing to do with its frames. -/
lemma Owned.wake (h : p.Owned) (htid : p.Live tid) :
    (p.setSlot tid { p.slots tid with state := .idle }).Owned := by
  have hlive : ∀ i, (p.setSlot tid { p.slots tid with state := .idle }).Live i ↔ p.Live i :=
    fun i => setSlot_live (by simp) htid
  have hframes : ∀ i, ((p.setSlot tid { p.slots tid with state := .idle }).slots i).frames =
      (p.slots i).frames := by
    intro i
    by_cases hi : i = tid
    · subst hi
      rw [setSlot_same]
    · rw [setSlot_of_ne hi]
  refine ⟨⟨h.once, ?_, ?_⟩, ?_⟩
  · intro i j f hi hj hij
    rw [hframes i, hframes j]
    exact h.apart i j f ((hlive i).1 hi) ((hlive j).1 hj) hij
  · intro i f hi
    rw [hframes i]
    exact h.taken i f ((hlive i).1 hi)
  · intro i hi
    rw [hframes i]
    exact h.nodup i ((hlive i).1 hi)

lemma Owned.fork (h : p.Owned) (hclean : p.nextSlot < p.count → (p.slots p.nextSlot).frames = [])
    (hrun : p.fork n = some q) : q.Owned := by
  rcases h.createBlockedThread hclean with ⟨hcreated, hchild⟩
  simp only [Pool.fork] at hrun
  split at hrun
  · cases hrun
  next hadd =>
  cases hrun
  rcases hcreated.addBlocks hchild hadd with ⟨hr, hlive⟩
  exact hr.wake hlive

/-- The frames of a thread are freed. -/
lemma Owned.kill (h : p.Owned) (htid : p.Live tid) : (p.kill tid).Owned := by
  rcases Allocator.freeBlocks_spec (h.nodup tid htid) (fun f hf => h.taken tid f htid hf) with
    ⟨hmisuse, hmem⟩
  have hsame : (p.kill tid).slots tid = { p.slots tid with state := .disabled } := setSlot_same
  have hother : ∀ i, i ≠ tid → (p.kill tid).slots i = p.slots i := fun i hi => setSlot_of_ne hi
  have hold : ∀ i, (p.kill tid).Live i → i ≠ tid ∧ p.Live i := by
    rintro i ⟨hlt, hstate⟩
    have hi : i ≠ tid := by
      rintro rfl
      rw [hsame] at hstate
      exact hstate rfl
    rw [hother i hi] at hstate
    exact ⟨hi, hlt, hstate⟩
  refine ⟨⟨?_, ?_, ?_⟩, ?_⟩
  · exact hmisuse.trans h.once
  · intro i j f hi hj hij
    rcases hold i hi with ⟨hin, hi'⟩
    rcases hold j hj with ⟨hjn, hj'⟩
    rw [hother i hin, hother j hjn]
    exact h.apart i j f hi' hj' hij
  · intro i f hi hfi
    rcases hold i hi with ⟨hin, hi'⟩
    rw [hother i hin] at hfi
    exact (hmem f).2 ⟨h.taken i f hi' hfi, h.apart i tid f hi' htid hin hfi⟩
  · intro i hi
    rcases hold i hi with ⟨hin, hi'⟩
    rw [hother i hin]
    exact h.nodup i hi'

/-- Every step that reuses clean slots keeps the invariant. -/
lemma Owned.step {op : ResourceOp} (h : p.Owned) (hclean : p.ReusesClean op)
    (hs : p.step op = some q) : q.Owned := by
  cases op with
  | create =>
    cases hs
    exact (h.createBlockedThread hclean).1
  | mapAnonymous tid pages =>
    rcases ite_none_right_eq_some.1 hs with ⟨htid, hrun⟩
    exact (h.addBlocks htid hrun).1
  | expandThreadStack tid pages =>
    rcases ite_none_right_eq_some.1 hs with ⟨htid, hrun⟩
    exact (h.addBlocks htid hrun).1
  | getPhysRegion tid pages =>
    rcases ite_none_right_eq_some.1 hs with ⟨htid, hrun⟩
    exact h.getPhysRegion htid hrun
  | fork tid pages =>
    rcases ite_none_right_eq_some.1 hs with ⟨htid, hrun⟩
    exact h.fork hclean hrun
  | kill tid =>
    rcases ite_none_right_eq_some.1 hs with ⟨htid, hq⟩
    cases hq
    exact h.kill htid

lemma boot_owned (supply : List Nat) (outstanding : Finset Nat) :
    (boot supply outstanding).Owned :=
  ⟨⟨rfl, nofun,
    nofun⟩, fun _ _ => nodup_nil⟩

end Pool

/-- In every run in which no slot is reused that still lists frames, data frames are released at most
once for each allocation, listed by at most one live thread, and not free while a live thread lists
them. -/
theorem frames_released_once {supply : List Nat} {outstanding : Finset Nat} {p : Pool}
    (hrun : Run Pool.step Pool.ReusesClean (Pool.boot supply outstanding) p) : p.Safe :=
  (hrun.invariant (Pool.boot_owned supply outstanding)
    fun _ _ _ ht hok hs => ht.step hok hs).toSafe

theorem frames_released_once_sample :
    ∃ p, exec Pool.step (Pool.boot [0x200000, 0x201000] ∅)
        [.create, .mapAnonymous 1 1, .fork 1 1, .kill 1] = some p ∧ p.Safe := by
  refine ⟨_, rfl, ?_⟩
  refine @frames_released_once [0x200000, 0x201000] ∅ _ ?_
  refine Run.tail (Run.tail (Run.tail (Run.single (a := ResourceOp.create) ?_ rfl)
    (a := ResourceOp.mapAnonymous 1 1) trivial rfl) (a := ResourceOp.fork 1 1) ?_ rfl)
    (a := ResourceOp.kill 1) trivial rfl
  · exact fun hlt => absurd hlt (by decide)
  · exact fun hlt => absurd hlt (by decide)

/-- A thread gets a page and is killed, and the thread that is next in its slot is killed as well:
the page is released a second time. -/
theorem frames_not_released_once :
    ¬ ∀ (supply : List Nat) (outstanding : Finset Nat) (p : Pool),
      Run Pool.step (fun _ _ => True) (Pool.boot supply outstanding) p → p.Safe := by
  intro hall
  have hrun : (exec Pool.step (Pool.boot [0x200000] ∅)
      [.create, .mapAnonymous 1 1, .kill 1, .create, .kill 1]).map
        (fun p => p.allocator.misuse) = some true := by
    decide
  rcases Option.map_eq_some_iff.1 hrun with ⟨p, hp, hmisuse⟩
  have hsafe := hall [0x200000] ∅ p (exec_run hp fun _ _ _ => trivial)
  rw [hsafe.once] at hmisuse
  exact absurd hmisuse (by decide)

end SigmaOS.Proc.Process
