import SigmaOS.Arch.PagingLife

/-!
# Arch.Pcid — switching between contexts with process context identifiers

A CPU with the PCID feature keeps the translations of several contexts apart in its TLB.
`set_current_info` gives a context one of eight slots; a context that has a slot is switched to
without a flush, and one whose slot is active is not switched to at all.  The slots are keyed by
the address of the context, while the root of a context changes over the life of its thread.

The TLB is modelled by the roots the cached translations of each PCID come from; the CPU may cache
a translation of the root in CR3 at any time.
-/

namespace SigmaOS.Arch.Paging

open Function
open Lib

/-! ## Slots -/

abbrev nPcids : Nat := 8

abbrev Pcid := Fin nPcids

structure PcidContext where
  pcid : Pcid
  context : Option Ctx
  timestamp : BitVec 64

structure PcidCpuContext where
  contexts : Pcid → PcidContext
  activeContext : Pcid
  nextTimestamp : BitVec 64

def PcidCpuContext.new (timestamps : Pcid → BitVec 64) : PcidCpuContext :=
  { contexts := fun i => { pcid := i, context := none, timestamp := timestamps i }
    activeContext := 0
    nextTimestamp := 0#64 }

/-- `get_paging_info` of the context and the identifier, as they are written to CR3. -/
structure Cr3 where
  root : Option Frame
  pcid : Pcid

structure Cpu where
  /-- `features.pcid`. -/
  hasPcid : Bool
  pcids : PcidCpuContext
  cr3 : Cr3
  /-- The roots that the translations cached under each PCID come from. -/
  cached : Pcid → List Frame

namespace Cpu

/-- A write to CR3; with `keep`, bit 63 is set and the translations of the PCID stay. -/
def loadCr3 (cpu : Cpu) (cr3 : Cr3) (keep : Bool) : Cpu :=
  { cpu with
    cr3 := cr3
    cached := if keep then cpu.cached else Function.update cpu.cached cr3.pcid [] }

/-- The end of `set_context`: slot `i` is the youngest and the active one. -/
def touch (cpu : Cpu) (i : Pcid) : Cpu :=
  let slot := cpu.pcids.contexts i
  { cpu with
    pcids :=
      { contexts := Function.update cpu.pcids.contexts i
          { slot with timestamp := cpu.pcids.nextTimestamp }
        activeContext := slot.pcid
        nextTimestamp := cpu.pcids.nextTimestamp + 1#64 } }

def setContext (cpu : Cpu) (roots : Ctx → Option Frame) (i : Pcid) : Cpu :=
  let slot := cpu.pcids.contexts i
  (cpu.loadCr3 ⟨slot.context.bind roots, slot.pcid⟩ cpu.hasPcid).touch i

def setContextTo (cpu : Cpu) (roots : Ctx → Option Frame) (i : Pcid) (info : Ctx) : Cpu :=
  let slot := { cpu.pcids.contexts i with context := some info }
  let pcids := { cpu.pcids with contexts := Function.update cpu.pcids.contexts i slot }
  ({ cpu with pcids := pcids }.loadCr3 ⟨roots info, slot.pcid⟩ false).touch i

/-- What the loop of `set_current_info` ends with: a slot that has the context, or the oldest one. -/
inductive Found
  | holds (i : Pcid)
  | oldest (i : Pcid)

/-- The loop of `set_current_info`, `pcid` being the oldest slot so far. -/
def search (cpu : Cpu) (info : Ctx) : List Pcid → Pcid → Found
  | [], pcid => .oldest pcid
  | i :: is, pcid =>
    let slot := cpu.pcids.contexts i
    if slot.context = some info then
      .holds i
    else
      search cpu info is
        (if slot.timestamp < (cpu.pcids.contexts pcid).timestamp then i else pcid)

/-- How a context was set, with the PCID it has got. -/
inductive SetPath
  /-- Its slot is active, nothing is done. -/
  | active (pcid : Pcid)
  /-- CR3 is loaded and the translations of the PCID are kept. -/
  | kept (pcid : Pcid)
  | invalidated (pcid : Pcid)
  deriving DecidableEq

/-- `set_current_info`, that is `context::set`. -/
def setCurrentInfo (cpu : Cpu) (roots : Ctx → Option Frame) (info : Ctx) : SetPath × Cpu :=
  if cpu.hasPcid then
    match cpu.search info (List.finRange nPcids) 0 with
    | .holds i =>
      if (cpu.pcids.contexts i).pcid = cpu.pcids.activeContext then
        (.active (cpu.pcids.contexts i).pcid, cpu)
      else
        (.kept (cpu.pcids.contexts i).pcid, cpu.setContext roots i)
    | .oldest i => (.invalidated (cpu.pcids.contexts i).pcid, cpu.setContextTo roots i info)
  else
    -- no PCID, so just use the first one
    (.invalidated (cpu.pcids.contexts 0).pcid, cpu.setContextTo roots 0 info)

/-- The CPU caches a translation of the root in CR3. -/
def fill (cpu : Cpu) : Cpu :=
  { cpu with
    cached := Function.update cpu.cached cpu.cr3.pcid
      (cpu.cr3.root.toList ++ cpu.cached cpu.cr3.pcid) }

end Cpu

/-! ## Runs -/

structure TlbMachine where
  machine : Machine
  cpu : Cpu

inductive TlbOp
  | set (c : Ctx)
  | fill
  /-- An operation on the contexts, by any CPU. -/
  | context (op : CtxOp)

def CtxOp.rooted : CtxOp → Option Ctx
  | .init c => some c
  | .mapPage _ _ _ _ _ => none
  | .clonePagingInfo _ target => some target
  | .deinit _ => none

namespace TlbMachine

def step (m : TlbMachine) : TlbOp → Option TlbMachine
  | .set c => some { m with cpu := (m.cpu.setCurrentInfo m.machine.roots c).2 }
  | .fill => some { m with cpu := m.cpu.fill }
  | .context op =>
    match m.machine.step op with
    | none => none
    | some machine => some { m with machine := machine }

/-- A machine before the first `set`: whatever is in CR3 and in the TLB, no slot has a context. -/
def start (hasPcid : Bool) (timestamps : Pcid → BitVec 64) (root : Option Frame)
    (cached : Pcid → List Frame) (machine : Machine) : TlbMachine :=
  { machine := machine
    cpu :=
      { hasPcid := hasPcid
        pcids := PcidCpuContext.new timestamps
        cr3 := ⟨root, 0⟩
        cached := cached } }

/-- A context gets a new root only while no slot is keyed by it. -/
def Unkeyed (m : TlbMachine) : TlbOp → Prop
  | .context op => ∀ i c, op.rooted = some c → (m.cpu.pcids.contexts i).context ≠ some c
  | _ => True

/-- Setting the context `c` now loads its current root, and where the translations of its PCID are
kept they all come from that root. -/
structure Coherent (m : TlbMachine) (c : Ctx) : Prop where
  root : (m.cpu.setCurrentInfo m.machine.roots c).2.cr3.root = m.machine.roots c
  kept : ∀ pcid, (m.cpu.setCurrentInfo m.machine.roots c).1 = .active pcid ∨
      (m.cpu.setCurrentInfo m.machine.roots c).1 = .kept pcid →
    ∀ r ∈ m.cpu.cached pcid, some r = m.machine.roots c

/-! ## The slots and the TLB along a run -/

structure Keyed (m : TlbMachine) : Prop where
  pcids : ∀ i, (m.cpu.pcids.contexts i).pcid = i
  loaded : m.cpu.cr3.pcid = m.cpu.pcids.activeContext
  active : ∀ c, (m.cpu.pcids.contexts m.cpu.pcids.activeContext).context = some c →
    m.cpu.cr3.root = m.machine.roots c
  cached : ∀ i c, (m.cpu.pcids.contexts i).context = some c →
    ∀ r ∈ m.cpu.cached i, some r = m.machine.roots c

end TlbMachine

namespace Cpu

variable {cpu : Cpu} {info : Ctx} {i : Pcid}

lemma search_holds {is : List Pcid} {pcid : Pcid} (h : cpu.search info is pcid = .holds i) :
    (cpu.pcids.contexts i).context = some info := by
  induction is generalizing pcid with
  | nil => cases h
  | cons j js ih =>
    by_cases hj : (cpu.pcids.contexts j).context = some info
    · have hij : Found.holds j = Found.holds i := by simpa [search, hj] using h
      cases hij
      exact hj
    · exact ih (by simpa [search, hj] using h)

lemma setContext_contexts (cpu : Cpu) (roots : Ctx → Option Frame) (i j : Pcid) :
    ((cpu.setContext roots i).pcids.contexts j).pcid = (cpu.pcids.contexts j).pcid ∧
      ((cpu.setContext roots i).pcids.contexts j).context = (cpu.pcids.contexts j).context := by
  by_cases hj : j = i
  · subst hj
    simp [setContext, loadCr3, touch]
  · simp [setContext, loadCr3, touch, hj]

lemma setContextTo_contexts (cpu : Cpu) (roots : Ctx → Option Frame) (info : Ctx) (i j : Pcid) :
    ((cpu.setContextTo roots i info).pcids.contexts j).pcid = (cpu.pcids.contexts j).pcid ∧
      ((cpu.setContextTo roots i info).pcids.contexts j).context =
        if j = i then some info else (cpu.pcids.contexts j).context := by
  by_cases hj : j = i
  · subst hj
    simp [setContextTo, loadCr3, touch]
  · simp [setContextTo, loadCr3, touch, hj]

end Cpu

namespace TlbMachine

variable {m m' : TlbMachine} {c : Ctx}

inductive Sets (m : TlbMachine) (c : Ctx) : Cpu.SetPath × Cpu → Prop where
  | active {i : Pcid} (holds : (m.cpu.pcids.contexts i).context = some c)
      (same : (m.cpu.pcids.contexts i).pcid = m.cpu.pcids.activeContext) :
      Sets m c (.active (m.cpu.pcids.contexts i).pcid, m.cpu)
  | kept {i : Pcid} (feature : m.cpu.hasPcid = true)
      (holds : (m.cpu.pcids.contexts i).context = some c) :
      Sets m c (.kept (m.cpu.pcids.contexts i).pcid, m.cpu.setContext m.machine.roots i)
  | invalidated {i : Pcid} :
      Sets m c (.invalidated (m.cpu.pcids.contexts i).pcid,
        m.cpu.setContextTo m.machine.roots i c)

/-- The call takes one of the three paths of `Sets`. -/
lemma setCurrentInfo_sets (m : TlbMachine) (c : Ctx) :
    m.Sets c (m.cpu.setCurrentInfo m.machine.roots c) := by
  unfold Cpu.setCurrentInfo
  by_cases hfeature : m.cpu.hasPcid
  · rw [if_pos hfeature]
    cases hsearch : m.cpu.search c (List.finRange nPcids) 0 with
    | holds i =>
      have hholds := Cpu.search_holds hsearch
      dsimp only
      split
      · exact Sets.active hholds (by assumption)
      · exact Sets.kept hfeature hholds
    | oldest i => exact Sets.invalidated
  · rw [if_neg hfeature]
    exact Sets.invalidated

/-- In a keyed state the cached translations of a context are its own. -/
lemma Keyed.coherent (h : m.Keyed) (c : Ctx) : m.Coherent c := by
  have hsets := m.setCurrentInfo_sets c
  generalize hout : m.cpu.setCurrentInfo m.machine.roots c = out at hsets
  refine ⟨?_, ?_⟩
  · rw [hout]
    cases hsets with
    | active hholds hsame =>
      rw [h.pcids] at hsame
      exact h.active c (hsame ▸ hholds)
    | kept _ hholds => simp [Cpu.setContext, Cpu.loadCr3, Cpu.touch, hholds]
    | invalidated => rfl
  · intro pcid hpath r hr
    rw [hout] at hpath
    cases hsets with
    | @active i hholds _ =>
      have hp : (m.cpu.pcids.contexts i).pcid = pcid := by simpa using hpath
      rw [← hp, h.pcids] at hr
      exact h.cached _ c hholds r hr
    | @kept i _ hholds =>
      have hp : (m.cpu.pcids.contexts i).pcid = pcid := by simpa using hpath
      rw [← hp, h.pcids] at hr
      exact h.cached _ c hholds r hr
    | invalidated => simp at hpath

/-- `set` keeps the state keyed, whichever slot it takes. -/
lemma Keyed.set (h : m.Keyed) (c : Ctx) :
    Keyed { m with cpu := (m.cpu.setCurrentInfo m.machine.roots c).2 } := by
  have hsets := m.setCurrentInfo_sets c
  generalize m.cpu.setCurrentInfo m.machine.roots c = out at hsets
  cases hsets with
  | active => exact h
  | @kept i hfeature hholds =>
    have hslots := Cpu.setContext_contexts m.cpu m.machine.roots i
    have hactive : (m.cpu.setContext m.machine.roots i).pcids.activeContext = i := h.pcids i
    refine ⟨?_, ?_, ?_, ?_⟩
    · intro j
      exact (hslots j).1.trans (h.pcids j)
    · rfl
    · intro c' hc'
      -- the active slot is the one that holds `c`, and CR3 has the root of `c`
      have hcc : c = c' := by
        have hslot := (hslots i).2
        rw [hactive, hslot, hholds] at hc'
        exact Option.some.inj hc'
      show (m.cpu.pcids.contexts i).context.bind m.machine.roots = m.machine.roots c'
      rw [hholds, ← hcc]
      rfl
    · intro j c' hc' r hr
      have hsame : (m.cpu.setContext m.machine.roots i).cached = m.cpu.cached := by
        simp [Cpu.setContext, Cpu.loadCr3, Cpu.touch, hfeature]
      rw [(hslots j).2] at hc'
      rw [hsame] at hr
      exact h.cached j c' hc' r hr
  | @invalidated i =>
    have hslots := Cpu.setContextTo_contexts m.cpu m.machine.roots c i
    have hpcid := h.pcids i
    have hactive : (m.cpu.setContextTo m.machine.roots i c).pcids.activeContext = i := by
      simpa [Cpu.setContextTo, Cpu.loadCr3, Cpu.touch] using hpcid
    refine ⟨?_, ?_, ?_, ?_⟩
    · intro j
      exact (hslots j).1.trans (h.pcids j)
    · rw [hactive]
      simpa [Cpu.setContextTo, Cpu.loadCr3, Cpu.touch] using hpcid
    · intro c' hc'
      have hcc : c = c' := by
        rw [hactive, (hslots i).2, if_pos rfl] at hc'
        exact Option.some.inj hc'
      rw [← hcc]
      rfl
    · intro j c' hc' r hr
      have hcached : (m.cpu.setContextTo m.machine.roots i c).cached =
          update m.cpu.cached i [] := by
        simp [Cpu.setContextTo, Cpu.loadCr3, Cpu.touch, hpcid]
      rw [hcached] at hr
      by_cases hj : j = i
      · -- the translations of the slot taken over have been flushed
        subst hj
        rw [update_self] at hr
        cases hr
      · rw [(hslots j).2, if_neg hj] at hc'
        rw [update_of_ne hj] at hr
        exact h.cached j c' hc' r hr

/-- A fill caches what CR3 has, which is the root of the active context. -/
lemma Keyed.fill (h : m.Keyed) : Keyed { m with cpu := m.cpu.fill } := by
  refine ⟨h.pcids, h.loaded, h.active, ?_⟩
  intro i c hc r hr
  by_cases hi : i = m.cpu.cr3.pcid
  · subst hi
    have hr' : r ∈ m.cpu.cr3.root.toList ∨ r ∈ m.cpu.cached m.cpu.cr3.pcid := by
      simpa [Cpu.fill] using hr
    rcases hr' with hnew | hold
    · -- what is cached now comes from CR3, which has the root of the active slot's context
      have hroot : m.cpu.cr3.root = some r := by simpa [Option.mem_toList] using hnew
      have hcur : (m.cpu.pcids.contexts m.cpu.pcids.activeContext).context = some c := by
        rw [← h.loaded]
        exact hc
      exact hroot.symm.trans (h.active c hcur)
    · exact h.cached _ c hc r hold
  · have hr' : r ∈ m.cpu.cached i := by simpa [Cpu.fill, hi] using hr
    exact h.cached i c hc r hr'

end TlbMachine

/-- A step changes no root but that of the context it names. -/
lemma Machine.step_roots {m m' : Machine} {op : CtxOp} {c : Ctx} (hs : m.step op = some m')
    (hc : op.rooted ≠ some c) : m'.roots c = m.roots c := by
  cases op with
  | init d =>
    have hne : c ≠ d := fun heq => hc (by rw [heq]; rfl)
    rcases Machine.init_cases hs with ⟨r, s, _, rfl⟩
    exact update_of_ne hne _ _
  | mapPage d phys virt flags cache =>
    rcases Machine.mapPage_cases hs with ⟨r, s, _, _, rfl⟩
    rfl
  | clonePagingInfo source target =>
    have hne : c ≠ target := fun heq => hc (by rw [heq]; rfl)
    rcases Machine.clonePagingInfo_cases hs with ⟨_, r, new, s, _, _, rfl⟩
    exact update_of_ne hne _ _
  | deinit d =>
    cases hs
    rfl

namespace TlbMachine

variable {m m' : TlbMachine}

/-- An operation on a context that no slot holds keeps the slots keyed. -/
lemma Keyed.context {op : CtxOp} (h : m.Keyed) (hok : m.Unkeyed (.context op))
    (hs : m.step (.context op) = some m') : m'.Keyed := by
  simp only [step] at hs
  split at hs
  · cases hs
  next machine hop =>
  cases hs
  -- the roots of all contexts that have a slot are as before
  have hroots : ∀ i c, (m.cpu.pcids.contexts i).context = some c →
      machine.roots c = m.machine.roots c :=
    fun i c hc => Machine.step_roots hop fun hrooted => hok i c hrooted hc
  refine ⟨h.pcids, h.loaded, ?_, ?_⟩
  · intro c hc
    exact (h.active c hc).trans (hroots _ c hc).symm
  · intro i c hc r hr
    exact (h.cached i c hc r hr).trans (hroots i c hc).symm

lemma Keyed.step {op : TlbOp} (h : m.Keyed) (hok : m.Unkeyed op) (hs : m.step op = some m') :
    m'.Keyed := by
  cases op with
  | set c => exact Option.some.inj hs ▸ h.set c
  | fill => exact Option.some.inj hs ▸ h.fill
  | context op => exact h.context hok hs

lemma start_keyed (hasPcid : Bool) (timestamps : Pcid → BitVec 64) (root : Option Frame)
    (cached : Pcid → List Frame) (machine : Machine) :
    (start hasPcid timestamps root cached machine).Keyed := by
  refine ⟨fun _ => rfl, rfl, ?_, ?_⟩
  · intro c hc
    cases hc
  · intro i c hc
    cases hc

end TlbMachine

/-- In every run in which contexts get new roots only while no slot is keyed by them, every `set` is
coherent. -/
theorem set_coherent {hasPcid : Bool} {timestamps : Pcid → BitVec 64} {root : Option Frame}
    {cached : Pcid → List Frame} {machine : Machine} {m : TlbMachine}
    (hrun : Run TlbMachine.step TlbMachine.Unkeyed
      (TlbMachine.start hasPcid timestamps root cached machine) m) (c : Ctx) : m.Coherent c := by
  have hkeyed : m.Keyed := by
    refine hrun.invariant (TlbMachine.start_keyed hasPcid timestamps root cached machine) ?_
    intro t op u ht hok hs
    exact ht.step hok hs
  exact hkeyed.coherent c

/-- `init` with a frame in stock. -/
lemma Machine.step_init {m : Machine} {c : Ctx} {f : Frame} {rest : List Frame}
    (hsupply : m.phys.supply = f :: rest) (hf : f ∉ m.phys.live) :
    ∃ m', m.step (.init c) = some m' ∧ m'.roots = update m.roots c (some f) := by
  have hdeinit : (deinit (m.roots c) m.phys).supply = f :: rest ∧
      f ∉ (deinit (m.roots c) m.phys).live := by
    cases hroot : m.roots c with
    | none => exact ⟨hsupply, hf⟩
    | some r =>
      have hkept := cleanRoot_relates (R := fun s s' => s'.supply = s.supply) (fun _ => rfl)
        (fun h h' => h'.trans h) (fun _ _ => rfl) (fun _ _ => rfl) r m.phys
      have hlive := (cleanRoot_shrinks r m.phys).live
      have hout : f ∉ (cleanEntries cleanPdpt lowerHalf r m.phys).live :=
        mt (Finset.mem_of_subset hlive) hf
      simp only [deinit, Phys.free]
      exact ⟨hkept.trans hsupply, mt Finset.mem_of_mem_erase hout⟩
  have halloc : ∃ s, (deinit (m.roots c) m.phys).alloc = some (f, s) := by
    simp only [Phys.alloc, hdeinit.1, if_neg hdeinit.2]
    exact ⟨_, rfl⟩
  rcases halloc with ⟨s, halloc⟩
  simp only [Machine.step, Paging.init, halloc]
  exact ⟨_, rfl, rfl⟩

def sampleTlb : TlbMachine :=
  TlbMachine.start true (fun _ => 0#64) none (fun _ => [])
    (Machine.start (fun _ _ => 0#64) [frameAt 1, frameAt 2, frameAt 3])

/-- Two contexts, a fill for the second, and back to the first. -/
theorem set_coherent_sample :
    ∃ m, exec TlbMachine.step sampleTlb
        [.context (.init 0), .context (.init 1), .set 0, .set 1, .fill, .set 0] = some m ∧
      (m.cpu.setCurrentInfo m.machine.roots 1).1 = .kept 0 ∧ m.Coherent 1 := by
  have hsteps : ∃ m₀, sampleTlb.step (.context (.init 0)) = some m₀ ∧
      (∀ i, (m₀.cpu.pcids.contexts i).context = none) ∧
      ∃ m₁, m₀.step (.context (.init 1)) = some m₁ ∧
      ∃ m, exec TlbMachine.step m₁ [.set 0, .set 1, .fill, .set 0] = some m ∧
        exec TlbMachine.step sampleTlb
          [.context (.init 0), .context (.init 1), .set 0, .set 1, .fill, .set 0] = some m ∧
        (m.cpu.setCurrentInfo m.machine.roots 1).1 = .kept 0 :=
    ⟨_, rfl, fun _ => rfl, _, rfl, _, rfl, rfl, rfl⟩
  rcases hsteps with ⟨m₀, h₀, hnone, m₁, h₁, m, hsets, hexec, hkept⟩
  -- both contexts get their roots before the first `set`
  have hfirst : sampleTlb.Unkeyed (.context (.init 0)) := by
    intro i c _ hc
    cases hc
  have hsecond : m₀.Unkeyed (.context (.init 1)) := by
    intro i c _ hc
    rw [hnone i] at hc
    cases hc
  have hrest : Run TlbMachine.step TlbMachine.Unkeyed m₁ m := by
    refine exec_run hsets ?_
    simp [TlbMachine.Unkeyed]
  exact ⟨m, hexec, hkept,
    set_coherent (Run.trans (Run.tail (Run.single hfirst h₀) hsecond h₁) hrest) 1⟩

/-- A thread's context is set and used, the thread is killed (`kill` sets the kernel's context and
gives the thread's one a new root), and the context is set for the next thread. -/
theorem set_not_coherent :
    ¬ ∀ (timestamps : Pcid → BitVec 64) (root : Option Frame) (cached : Pcid → List Frame)
      (machine : Machine) (m : TlbMachine) (c : Ctx),
      Run TlbMachine.step (fun _ _ => True) (TlbMachine.start true timestamps root cached machine) m →
        m.Coherent c := by
  intro hall
  have hexec : ∃ m, exec TlbMachine.step sampleTlb
      [.context (.init 0), .context (.init 1), .set 0, .set 1, .fill, .set 0] = some m ∧
      (∀ roots, (m.cpu.setCurrentInfo roots 1).1 = .kept 0) ∧ m.cpu.cached 0 = [frameAt 2] ∧
      m.machine.phys.supply = [frameAt 3] ∧
        m.machine.phys.live = {frameAt 2, frameAt 1} :=
    ⟨_, rfl, fun _ => rfl, rfl, rfl, rfl⟩
  rcases hexec with ⟨m, hm, hkept, hcached, hsupply, hlive⟩
  have hfresh : frameAt 3 ∉ m.machine.phys.live := by
    rw [hlive]
    decide
  rcases Machine.step_init (c := 1) hsupply hfresh with ⟨machine, hinit, hroots⟩
  have hstep : m.step (.context (.init 1)) = some { m with machine := machine } := by
    simp only [TlbMachine.step, hinit]
  -- the slot of context 1 still has the translations of its first root
  have hcoh := hall _ _ _ _ _ 1 (Run.tail (exec_run hm (fun _ _ _ => trivial)) trivial hstep)
  have hmem : frameAt 2 ∈ m.cpu.cached 0 := by
    rw [hcached]
    exact List.mem_singleton.2 rfl
  have hold : some (frameAt 2) = machine.roots 1 :=
    hcoh.kept 0 (Or.inr (hkept machine.roots)) (frameAt 2) hmem
  rw [hroots, update_self] at hold
  exact absurd hold (by decide)

end SigmaOS.Arch.Paging
