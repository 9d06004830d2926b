import SigmaOS.Lib.Run
import SigmaOS.Proc.Scheduler

/-!
# Proc.Fairness — whose turn it is on one CPU

The search of `schedule` begins with the current thread and goes round the list, or begins with the
first thread if there is no current one.  `turn n current t` is the number of threads that are
asked before `t`.

After thread `a` was dispatched, a thread `b` that stays ready is asked before `a`, and every
dispatch of a third thread keeps it so (`Before.shift`).
-/

namespace SigmaOS.Proc.Process

open Lib List

inductive CpuOp
  | tick
  | block (event : Event)
  | wake (t : Tid)
  | trigger (event : Event)
  | kill

namespace Sched

/-- One operation on CPU `c`.  Interrupts are off in `thread::block`, so its timer handler runs right
after the thread is `BLOCKED`; `thread::wake` asks for no state. -/
def cpuStep (c : Cpu) (s : Sched) : CpuOp → Option Sched
  | .tick => some (s.timerHandler c)
  | .block event =>
    match s.current c with
    | none => none
    | some t => some ((s.block t event).timerHandler c)
  | .wake t => if t < s.count then some (s.setState t .idle) else none
  | .trigger event => some (s.trigger event)
  | .kill =>
    match s.current c with
    | none => none
    | some t => some (s.kill c t)

def picks (s : Sched) (c : Cpu) : Option Tid :=
  (s.schedule (s.current c)).map Prod.fst

def dispatched (c : Cpu) (s : Sched) : CpuOp → Option Tid
  | .tick => s.picks c
  | .block event =>
    match s.current c with
    | none => none
    | some t => (s.block t event).picks c
  | _ => none

/-! ## The order of the search -/

def scan (n : Nat) : Option Nat → List Nat
  | none => List.range n
  -- the list from the current thread to its end, and then from the front
  | some t => (List.range n).drop t ++ (List.range n).take t

def turn (n : Nat) (current : Option Nat) (t : Nat) : Nat :=
  match current with
  | none => t
  -- a thread in front of the current one is asked on the second way through the list
  | some c => if c ≤ t then t - c else t + n - c

section Order

variable {n t u p a b : Nat} {current : Option Nat}

/-- The scan goes by turns. -/
lemma scan_sorted (h : ∀ t, current = some t → t < n) :
    (scan n current).Pairwise fun t u => turn n current t < turn n current u := by
  cases current with
  | none => exact pairwise_lt_range
  | some x =>
    have hx : x < n := h x rfl
    have hdrop : ∀ t ∈ (List.range n).drop x, x ≤ t ∧ t < n := by
      intro t ht
      rw [mem_drop_iff_getElem] at ht
      rcases ht with ⟨i, hi, rfl⟩
      rw [length_range] at hi
      rw [getElem_range]
      omega
    have htake : ∀ t ∈ (List.range n).take x, t < x := by
      intro t ht
      rw [take_range] at ht
      have hlt := mem_range.1 ht
      omega
    -- two threads of the same part are in the order of the list; the second part comes later
    refine pairwise_append.2 ⟨?_, ?_, ?_⟩
    · refine (List.pairwise_lt_range.drop).imp_of_mem ?_
      intro t u ht hu hlt
      have h₁ := hdrop t ht
      have h₂ := hdrop u hu
      simp only [turn, if_pos h₁.1, if_pos h₂.1]
      omega
    · refine (List.pairwise_lt_range.take).imp_of_mem ?_
      intro t u ht hu hlt
      have h₁ := htake t ht
      have h₂ := htake u hu
      simp only [turn, if_neg (Nat.not_le.2 h₁), if_neg (Nat.not_le.2 h₂)]
      omega
    · intro t ht u hu
      have h₁ := hdrop t ht
      have h₂ := htake u hu
      simp only [turn, if_pos h₁.1, if_neg (Nat.not_le.2 h₂)]
      omega

lemma mem_scan (h : ∀ t, current = some t → t < n) (hu : u < n) : u ∈ scan n current := by
  cases current with
  | none => exact mem_range.2 hu
  | some x =>
    have hperm : u ∈ (List.range n).take x ++ (List.range n).drop x := by
      rw [take_append_drop]
      exact mem_range.2 hu
    exact mem_append.2 (mem_append.1 hperm).symm

lemma turn_cases (n x t : Nat) :
    (x ≤ t ∧ turn n (some x) t = t - x) ∨ (t < x ∧ turn n (some x) t = t + n - x) := by
  by_cases hle : x ≤ t
  · exact .inl ⟨hle, if_pos hle⟩
  · exact .inr ⟨Nat.lt_of_not_le hle, if_neg hle⟩

/-- Thread `b` is asked before thread `a`, where the current thread counts as the last one. -/
def Before (n : Nat) (current : Option Nat) (b a : Nat) : Prop :=
  current = some a ∨ turn n current b < turn n current a

/-- Who is before whom after another thread had its turn. -/
lemma Before.shift (h : Before n current b a) (hcurrent : ∀ t, current = some t → t < n)
    (ha : a < n) (hb : b < n) (hp : p < n) (hpa : p ≠ a)
    (hlt : turn n current p < turn n current b) : Before n (some p) b a := by
  -- `p` is the current thread from now on, and `a` is not `p`
  refine .inr ?_
  have hpb := turn_cases n p b
  have hpa' := turn_cases n p a
  cases current with
  | none =>
    rcases h with hself | hba
    · cases hself
    · have hpb' : p < b := hlt
      have hba' : b < a := hba
      omega
  | some x =>
    have hxp := turn_cases n x p
    have hxb := turn_cases n x b
    rcases h with hself | hba
    · -- the way round the list from `a` comes to `p`, to `b`, and to `a` again
      cases hself
      omega
    · have hxa := turn_cases n x a
      omega

/-- The search starts again from the first thread, and `b` was not behind the current one. -/
lemma Before.restart {x : Nat} (h : Before n (some x) b a) (hb : b < x) : Before n none b a := by
  refine .inr ?_
  show b < a
  rcases h with hself | hba
  · cases hself
    exact hb
  · have hxb := turn_cases n x b
    have hxa := turn_cases n x a
    omega

end Order

section Search

variable {s s' : Sched} {c : Cpu} {t u p a b : Tid} {current : Option Tid}

def InList (n : Nat) (current : Option Tid) : Prop :=
  ∀ t, current = some t → t < n

lemma schedule_eq (h : InList s.count current) :
    s.schedule current = s.firstReady (scan s.count current) := by
  cases current with
  | none => rfl
  | some t => exact if_pos (h t rfl)

/-- Nobody in front of the thread that is picked was ready. -/
lemma firstReady_split {ts : List Tid} (h : s.firstReady ts = some (p, s')) :
    ∃ front back, ts = front ++ p :: back ∧ ∀ t ∈ front, ¬ s.Ready t := by
  induction ts with
  | nil => cases h
  | cons t ts ih =>
    cases hcheck : s.checkThread t with
    | none =>
      rcases ih (by simpa [firstReady, hcheck] using h) with ⟨front, back, rfl, hfront⟩
      refine ⟨t :: front, back, rfl, ?_⟩
      intro u hu
      rcases mem_cons.1 hu with rfl | hin
      · intro hready
        rcases exists_checkThread hready with ⟨r, hr⟩
        rw [hcheck] at hr
        cases hr
      · exact hfront u hin
    | some r =>
      have hpair : t = p ∧ r = s' := by simpa [firstReady, hcheck] using h
      rw [hpair.1]
      exact ⟨[], ts, rfl, fun _ hu => absurd hu not_mem_nil⟩

/-- The thread picked comes before every other ready one in turn. -/
lemma schedule_first (hlist : InList s.count current) (h : s.schedule current = some (p, s'))
    (hu : u < s.count) (hready : s.Ready u) (hne : u ≠ p) :
    turn s.count current p < turn s.count current u := by
  rw [schedule_eq hlist] at h
  rcases firstReady_split h with ⟨front, back, hscan, hfront⟩
  have hsorted := scan_sorted hlist
  have hmem : u ∈ scan s.count current := mem_scan hlist hu
  rw [hscan] at hsorted hmem
  -- `u` is not in front of `p`, where no thread is ready
  rcases mem_append.1 hmem with hin | hin
  · exact absurd hready (hfront u hin)
  · rcases mem_cons.1 hin with rfl | hback
    · exact absurd rfl hne
    · exact (pairwise_cons.1 (pairwise_append.1 hsorted).2.1).1 u hback

lemma firstReady_of_mem :
    ∀ {ts : List Tid}, u ∈ ts → s.Ready u → ∃ p s', s.firstReady ts = some (p, s') := by
  intro ts
  induction ts with
  | nil =>
    intro hu
    cases hu
  | cons t ts ih =>
    intro hu hready
    cases hcheck : s.checkThread t with
    | some r => exact ⟨t, r, by simp [firstReady, hcheck]⟩
    | none =>
      rcases mem_cons.1 hu with rfl | hin
      · rcases exists_checkThread hready with ⟨r, hr⟩
        rw [hcheck] at hr
        cases hr
      · rcases ih hin hready with ⟨p, r, hr⟩
        exact ⟨p, r, by simpa [firstReady, hcheck] using hr⟩

lemma schedule_of_ready (hlist : InList s.count current) (hu : u < s.count) (hready : s.Ready u) :
    ∃ p s', s.schedule current = some (p, s') := by
  rw [schedule_eq hlist]
  exact firstReady_of_mem (mem_scan hlist hu) hready

end Search

section Timer

variable {s s' : Sched} {c : Cpu} {p b : Tid}

lemma switchOut_count (old : Option Tid) : (s.switchOut old).count = s.count := by
  cases old with
  | none => rfl
  | some u =>
    by_cases hrun : (s.tasks u).state = .running
    · simp [switchOut, hrun, setState]
    · simp [switchOut, hrun]

section

variable (h : s.schedule (s.current c) = some (p, s'))
include h

lemma timerHandler_count : (s.timerHandler c).count = s.count := by
  rw [timerHandler_eq h]
  exact (switchOut_count _).trans (schedule_spec h).count

lemma timerHandler_current : (s.timerHandler c).current c = some p := by
  simp [timerHandler_eq h, setState, setCurrent]

lemma timerHandler_idle (hb : b ≠ p) (hidle : (s.tasks b).state = .idle) :
    ((s.timerHandler c).tasks b).state = .idle := by
  have htask : (s.timerHandler c).tasks b = (s'.switchOut (s.current c)).tasks b := by
    simp [timerHandler_eq h, setState, setCurrent, hb]
  rw [htask]
  -- the thread that is switched out becomes idle if it was running
  rcases switchOut_cases (s := s') (s.current c) b with ⟨_, _, hafter⟩ | ⟨hsame, _⟩
  · exact hafter
  · rw [hsame, (schedule_spec h).others b hb]
    exact hidle

end

lemma picks_eq_some : s.picks c = some p ↔ ∃ s', s.schedule (s.current c) = some (p, s') := by
  constructor
  · intro h
    rcases Option.map_eq_some_iff.1 h with ⟨⟨q, r⟩, hsched, rfl⟩
    exact ⟨r, hsched⟩
  · rintro ⟨r, hsched⟩
    exact Option.map_eq_some_iff.2 ⟨(p, r), hsched, rfl⟩

end Timer

/-! ## Waiting for the turn -/

/-- The timer handler leaves the current thread, or finds no other thread idle. -/
def Leaves (s : Sched) (c : Cpu) : Prop :=
  ∀ t, s.current c = some t → s.Ready t → ∀ u, u < s.count → u ≠ t → (s.tasks u).state ≠ .idle

lemma leaves_of_running {s : Sched} {c : Cpu}
    (h : ∀ t, s.current c = some t → (s.tasks t).state = .running) : s.Leaves c := by
  intro t ht hready
  rcases hready with hidle | ⟨hblocked, _⟩
  · rw [h t ht] at hidle
    cases hidle
  · rw [h t ht] at hblocked
    cases hblocked

/-- The place in the list is not lost.  When the timer handler is called, the current thread is not
ready to run on, or no other thread is idle; when a thread blocks, its event has not triggered yet, or
no other thread is idle; when a thread is killed, no thread behind it is idle. -/
def KeepsTurn (c : Cpu) (s : Sched) : CpuOp → Prop
  | .tick => s.Leaves c
  | .block event => ∀ t, s.current c = some t → s.triggers event ≠ 0 →
      ∀ u, u < s.count → u ≠ t → (s.tasks u).state ≠ .idle
  | .kill => ∀ t, s.current c = some t → ∀ u, t < u → u < s.count → (s.tasks u).state ≠ .idle
  | _ => True

structure Waits (c : Cpu) (a b : Tid) (s : Sched) : Prop where
  idle : (s.tasks b).state = .idle
  listed : a < s.count ∧ b < s.count
  inList : InList s.count (s.current c)
  away : s.current c ≠ some b
  before : Before s.count (s.current c) b a

section Waits

variable {s s' : Sched} {c : Cpu} {a b : Tid} {op : CpuOp}

/-- A tick brings the waiting thread closer. -/
lemma Waits.tick (h : Waits c a b s) (hne : b ≠ a) (hleaves : s.Leaves c)
    (hb : s.picks c ≠ some b) : s.picks c ≠ some a ∧ Waits c a b (s.timerHandler c) := by
  rcases schedule_of_ready h.inList h.listed.2 (.inl h.idle) with ⟨p, s', hsched⟩
  have hbp : b ≠ p := by
    rintro rfl
    exact hb (picks_eq_some.2 ⟨s', hsched⟩)
  have hlt := schedule_first h.inList hsched h.listed.2 (.inl h.idle) hbp
  -- `a` is found only if it is asked before `b`, or is the current thread and ready again
  have hpa : p ≠ a := by
    rintro rfl
    rcases h.before with hself | hba
    · exact hleaves p hself (schedule_spec hsched).ready b h.listed.2 hne h.idle
    · exact Nat.lt_asymm hlt hba
  refine ⟨?_, ?_⟩
  · intro ha
    rcases picks_eq_some.1 ha with ⟨r, hr⟩
    rw [hsched] at hr
    cases hr
    exact hpa rfl
  · have hcurrent := timerHandler_current hsched
    have hcount := timerHandler_count hsched
    refine ⟨timerHandler_idle hsched hbp h.idle, hcount.symm ▸ h.listed, ?_, ?_, ?_⟩
    · intro t ht
      rw [hcurrent] at ht
      cases ht
      rw [hcount]
      exact schedule_lt hsched
    · rw [hcurrent]
      exact fun heq => hbp (Option.some.inj heq).symm
    · rw [hcurrent, hcount]
      exact h.before.shift h.inList h.listed.1 h.listed.2 (schedule_lt hsched) hpa hlt

lemma Waits.block {t : Tid} (h : Waits c a b s) (event : Event) (ht : s.current c = some t) :
    Waits c a b (s.block t event) := by
  have hbt : b ≠ t := by
    rintro rfl
    exact h.away ht
  refine ⟨?_, h.listed, h.inList, h.away, h.before⟩
  simpa [Sched.block, hbt] using h.idle

lemma block_leaves {t : Tid} {event : Event} (ht : s.current c = some t)
    (hturn : s.KeepsTurn c (.block event)) : (s.block t event).Leaves c := by
  intro u hu hready v hv hvu
  have hut : t = u := Option.some.inj (ht.symm.trans hu)
  subst hut
  -- the thread is blocked, so it can only be ready because its event has triggered
  have htriggered : s.triggers event ≠ 0 := by
    rcases hready with hidle | ⟨_, htriggered⟩
    · simp [Sched.block] at hidle
    · simpa [Sched.block] using htriggered
  simpa [Sched.block, hvu] using hturn t ht htriggered v hv hvu

/-- A kill does not put it back. -/
lemma Waits.kill {t : Tid} (h : Waits c a b s) (ht : s.current c = some t)
    (hturn : s.KeepsTurn c .kill) : Waits c a b (s.kill c t) := by
  have hbt : b ≠ t := by
    rintro rfl
    exact h.away ht
  -- `b` is not behind the thread that was killed
  have hlt : b < t := by
    rcases Nat.lt_trichotomy b t with hlt | heq | hgt
    · exact hlt
    · exact absurd heq hbt
    · exact absurd h.idle (hturn t ht b hgt h.listed.2)
  have hcurrent : (s.kill c t).current c = none := by simp [Sched.kill, setCurrent]
  have hbefore := h.before
  rw [ht] at hbefore
  refine ⟨by simpa [Sched.kill, setState, setCurrent, hbt] using h.idle, h.listed, ?_, ?_, ?_⟩
  · intro u hu
    rw [hcurrent] at hu
    cases hu
  · simp [hcurrent]
  · rw [hcurrent]
    exact hbefore.restart hlt

/-- While `b` waits, `a` has at most one turn. -/
lemma Waits.step (h : Waits c a b s) (hne : b ≠ a) (hturn : s.KeepsTurn c op)
    (hb : s.dispatched c op ≠ some b) :
    s.dispatched c op ≠ some a ∧ ∀ s', s.cpuStep c op = some s' → Waits c a b s' := by
  cases op with
  | tick =>
    refine ⟨(h.tick hne hturn hb).1, ?_⟩
    intro s' hs
    cases hs
    exact (h.tick hne hturn hb).2
  | block event =>
    cases ht : s.current c with
    | none => simp [dispatched, cpuStep, ht]
    | some t =>
      simp only [dispatched, ht] at hb
      simp only [dispatched, cpuStep, ht]
      have htick := (h.block event ht).tick hne (block_leaves ht hturn) hb
      refine ⟨htick.1, ?_⟩
      intro s' hs
      cases hs
      exact htick.2
  | wake t =>
    refine ⟨by simp [dispatched], ?_⟩
    intro s' hs
    simp only [cpuStep] at hs
    split at hs
    · cases hs
      refine ⟨?_, h.listed, h.inList, h.away, h.before⟩
      by_cases hbt : b = t
      · simp [setState, hbt]
      · simpa [setState, hbt] using h.idle
    · cases hs
  | trigger event =>
    refine ⟨by simp [dispatched], ?_⟩
    intro s' hs
    cases hs
    exact ⟨h.idle, h.listed, h.inList, h.away, h.before⟩
  | kill =>
    refine ⟨by simp [dispatched], ?_⟩
    intro s' hs
    cases ht : s.current c with
    | none => simp [cpuStep, ht] at hs
    | some t =>
      simp only [cpuStep, ht] at hs
      cases hs
      exact h.kill ht hturn

/-- The thread that is dispatched is current then. -/
lemma dispatched_current (hd : s.dispatched c op = some a) (hs : s.cpuStep c op = some s') :
    s'.current c = some a ∧ a < s.count ∧ s'.count = s.count := by
  cases op with
  | tick =>
    rcases picks_eq_some.1 hd with ⟨r, hsched⟩
    cases hs
    exact ⟨timerHandler_current hsched, schedule_lt hsched, timerHandler_count hsched⟩
  | block event =>
    simp only [cpuStep] at hs
    split at hs
    · cases hs
    next t ht =>
    cases hs
    simp only [dispatched, ht] at hd
    rcases picks_eq_some.1 hd with ⟨r, hsched⟩
    have hlt : a < (s.block t event).count := schedule_lt hsched
    exact ⟨timerHandler_current hsched, hlt, timerHandler_count hsched⟩
  | wake t => cases hd
  | trigger event => cases hd
  | kill => cases hd

end Waits

end Sched

/-- Thread `a` is dispatched, and thread `b` is idle then.  As long as `b` is not dispatched and no
operation loses the place in the list, `a` is not dispatched again. -/
theorem round_robin {c : Cpu} {a b : Tid} {s₁ s₂ s₃ : Sched} {op op' : CpuOp}
    (hfirst : s₁.dispatched c op = some a) (hstep : s₁.cpuStep c op = some s₂)
    (hb : b < s₁.count) (hne : b ≠ a) (hidle : (s₂.tasks b).state = .idle)
    (hrun : Run (Sched.cpuStep c) (fun s o => s.KeepsTurn c o ∧ s.dispatched c o ≠ some b) s₂ s₃)
    (hturn : s₃.KeepsTurn c op') : s₃.dispatched c op' ≠ some a := by
  rcases Sched.dispatched_current hfirst hstep with ⟨hcurrent, ha, hcount⟩
  -- right after its dispatch `a` is the current thread, which counts as the last one
  have hstart : Sched.Waits c a b s₂ := by
    refine ⟨hidle, hcount.symm ▸ ⟨ha, hb⟩, ?_, ?_, Or.inl hcurrent⟩
    · intro t ht
      rw [hcurrent] at ht
      cases ht
      rw [hcount]
      exact ha
    · rw [hcurrent]
      exact fun heq => hne (Option.some.inj heq).symm
  have hwaits : Sched.Waits c a b s₃ :=
    hrun.invariant (I := Sched.Waits c a b) hstart
      fun _ _ _ hw hok hs => (hw.step hne hok.1 hok.2).2 _ hs
  -- the last operation dispatches `a`, hence not `b`, and it would be a step like the others
  intro hagain
  have hnot : s₃.dispatched c op' ≠ some b := by
    rw [hagain]
    exact fun heq => hne (Option.some.inj heq).symm
  exact (hwaits.step hne hturn hnot).1 hagain

def threeIdle : Sched where
  tasks := fun t => ⟨if t = kernelThread then .silent else .idle, 0⟩
  count := 4
  triggers := fun _ => 0
  current := fun _ => some kernelThread

/-- Thread 1 is dispatched, then thread 2, and then not thread 1, since thread 3 is waiting. -/
theorem round_robin_threeIdle :
    ∃ s₂ s₃, threeIdle.cpuStep 0 .tick = some s₂ ∧ s₂.cpuStep 0 .tick = some s₃ ∧
      threeIdle.dispatched 0 .tick = some 1 ∧ s₂.dispatched 0 .tick = some 2 ∧
        s₃.dispatched 0 .tick ≠ some 1 := by
  refine ⟨_, _, rfl, rfl, by decide, by decide, ?_⟩
  apply @round_robin 0 1 3 threeIdle _ _ .tick .tick (by decide) rfl (by decide) (by decide)
    (by decide)
  · refine Run.single (a := CpuOp.tick) ⟨Sched.leaves_of_running ?_, by decide⟩ rfl
    intro t ht
    cases ht
    decide
  · apply Sched.leaves_of_running
    intro t ht
    cases ht
    decide

/-- Thread 2 is killed, and thread 1 has a second turn before thread 3 has its first. -/
theorem kill_loses_turn :
    ¬ ∀ (c : Cpu) (a b : Tid) (s₁ s₂ s₃ : Sched) (op op' : CpuOp),
      s₁.dispatched c op = some a → s₁.cpuStep c op = some s₂ → b < s₁.count → b ≠ a →
        Run (Sched.cpuStep c) (fun s o => (s.tasks b).state = .idle ∧ s.dispatched c o ≠ some b)
          s₂ s₃ → (s₃.tasks b).state = .idle → s₃.dispatched c op' ≠ some a := by
  intro hclaim
  have hrun : ∃ s₂ s₃ s₄, threeIdle.cpuStep 0 .tick = some s₂ ∧ s₂.cpuStep 0 .tick = some s₃ ∧
      s₃.cpuStep 0 .kill = some s₄ ∧ s₂.dispatched 0 .tick ≠ some 3 ∧
      (s₂.tasks 3).state = .idle ∧ (s₃.tasks 3).state = .idle ∧ (s₄.tasks 3).state = .idle ∧
      s₄.dispatched 0 .tick = some 1 :=
    ⟨_, _, _, rfl, rfl, rfl, by decide, by decide, by decide, by decide, by decide⟩
  rcases hrun with ⟨s₂, s₃, s₄, h₁, h₂, h₃, hother, hidle₂, hidle₃, hidle₄, hagain⟩
  refine hclaim 0 1 3 threeIdle s₂ s₄ .tick .tick (by decide) h₁ (by decide) (by decide) ?_ hidle₄
    hagain
  exact Run.tail (Run.single (a := CpuOp.tick) ⟨hidle₂, hother⟩ h₂) (a := CpuOp.kill)
    ⟨hidle₃, by simp [Sched.dispatched]⟩ h₃

end SigmaOS.Proc.Process
