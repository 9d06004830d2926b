import SigmaOS.Zeta.Vfs

/-!
# Zeta.Descriptors — the numbers that `open` hands out

`open` takes its number from a counter that only goes up, and `dup2` opens the number that it is
given, also one that the counter has not come to yet.  `Held` reads from what has happened so far
whether the last successful `dup2` to a number was not followed by `close`.  The invariant `Inv`
relates the counter to the whole map: a number that the counter has not come to is open exactly
when `dup2` holds it.
-/

namespace SigmaOS.Zeta

open Lib Option

variable {ν : Type}

/-! ## Histories -/

/-- A call that was made, with its answer. -/
abbrev Event (ν : Type) := Request ν × Answer

/-- The calls of all threads in order, with what they were answered. -/
def Vfs.stepTraced (s : Vfs ν × List (Event ν)) (q : Request ν) : Option (Vfs ν × List (Event ν)) :=
  (s.1.step q).map fun r => (r.1, s.2 ++ [(q, r.2)])

/-- What a call says about the number `n` of its thread: a `dup2` to it opens it, `close` closes it. -/
def heldStep (n : Int) (held : Bool) (c : Call) (ret : Int) : Bool :=
  match c with
  | .dup2 _ newfd => if newfd = n ∧ ret = n then true else held
  | .close fd => if fd = n then false else held
  | _ => held

/-- The last `dup2` to the number that succeeded was not followed by `close`. -/
def Held (trace : List (Event ν)) (tid : Nat) (n : Int) : Bool :=
  trace.foldl (fun held e => if e.1.tid = tid then heldStep n held e.1.call e.2.ret else held) false

lemma held_append {trace : List (Event ν)} {e : Event ν} {tid : Nat} {n : Int} :
    Held (trace ++ [e]) tid n =
      if e.1.tid = tid then heldStep n (Held trace tid n) e.1.call e.2.ret else Held trace tid n := by
  simp [Held]

def Call.target : Call → Option Int
  | .dup2 _ newfd => some newfd
  | .close fd => some fd
  | _ => none

/-! ## One call on an entry -/

/-- The descriptors refer to the same file: both are open or both are not, on one node in one mode. -/
def FdData.SameFile (d d' : FdData ν) : Prop :=
  d'.isOpen = d.isOpen ∧ d'.node = d.node ∧ d'.mode = d.mode

lemma FdData.SameFile.refl (d : FdData ν) : d.SameFile d :=
  ⟨rfl, rfl, rfl⟩

namespace ThreadVfsEntry

variable {mountList : List Mount} {fs : FileSystems ν} {t t' : ThreadVfsEntry ν} {c : Call} {a : Answer}

inductive Effect (t : ThreadVfsEntry ν) : Call → Int → ThreadVfsEntry ν → Prop where
  | quiet {c : Call} {r : Int} {t' : ThreadVfsEntry ν} (henabled : t'.enabled = t.enabled)
      (hfree : t'.freeFd = t.freeFd) (hsame : ∀ n, (t.fdMap n).SameFile (t'.fdMap n))
      (hheld : ∀ n, 0 ≤ n → heldStep n (t.fdMap n).isOpen c r = (t.fdMap n).isOpen) :
      Effect t c r t'
  | opened (path : List Char) (mode : Int) (node : ν) :
      Effect t (.openPath path mode) t.freeFd
        { t.setFd t.freeFd ⟨true, t.freeFd, some node, mode, 0#64⟩ with freeFd := t.freeFd + 1 }
  | copied {oldfd : Int} (newfd : Int) (hopen : (t.fdMap oldfd).isOpen = true) :
      Effect t (.dup2 oldfd newfd) newfd (t.setFd newfd { t.fdMap oldfd with fd := newfd })
  | closed (fd r : Int) :
      Effect t (.close fd) r (t.setFd fd { t.fdMap fd with isOpen := false })

lemma Effect.unchanged {r : Int}
    (hheld : ∀ n, 0 ≤ n → heldStep n (t.fdMap n).isOpen c r = (t.fdMap n).isOpen) : t.Effect c r t :=
  .quiet rfl rfl (fun n => .refl (t.fdMap n)) hheld

/-- What a call does to the descriptors of its thread. -/
lemma effect_of_call (h : t.call mountList fs c = some (t', a)) : t.Effect c a.ret t' := by
  cases c with
  | openPath path mode =>
    rcases map_eq_some_iff.1 h with ⟨⟨t₁, r⟩, hopen, heq⟩
    cases heq
    rcases openPath_cases hopen with ⟨rfl, _⟩ | ⟨rfl, node, rfl⟩
    · exact .unchanged fun _ _ => rfl
    · exact .opened path mode node
  | read fd count =>
    cases h
    exact .unchanged fun _ _ => rfl
  | write fd buf count =>
    cases h
    exact .unchanged fun _ _ => rfl
  | tell fd =>
    cases h
    exact .unchanged fun _ _ => rfl
  | seek fd offset whence =>
    cases h
    rcases seek_eq t fs fd offset whence with ⟨o, ho⟩
    rw [ho]
    refine .quiet rfl rfl (fun n => ?_) fun _ _ => rfl
    by_cases hn : n = fd
    · subst hn
      simp [FdData.SameFile]
    · simp [FdData.SameFile, hn]
  | dup2 oldfd newfd =>
    cases h
    rcases dup2_cases t oldfd newfd with ⟨_, hr⟩ | ⟨hopen, rfl, hr⟩ | ⟨hopen, _, hr⟩
    · rw [hr]
      -- a failure returns -1, which is no number that is asked about
      refine .unchanged fun n hn => if_neg ?_
      rintro ⟨_, hret⟩
      have hneg : -1 = n := hret
      omega
    · rw [hr]
      refine .unchanged fun n _ => ?_
      by_cases hn : oldfd = n
      · subst hn
        simp [heldStep, hopen]
      · simp [heldStep, hn]
    · rw [hr]
      exact .copied newfd hopen
  | close fd =>
    cases h
    rw [close_eq]
    exact .closed fd _

/-- The counter only goes up, and above it only `dup2` opens a number and only `close` closes one. -/
lemma Effect.isOpen {r : Int} (h : t.Effect c r t') (hthree : 3 ≤ t.freeFd) :
    t'.enabled = t.enabled ∧ t.freeFd ≤ t'.freeFd ∧
      ∀ n, t'.freeFd ≤ n → (t'.fdMap n).isOpen = heldStep n (t.fdMap n).isOpen c r := by
  cases h with
  | quiet henabled hfree hsame hheld =>
    refine ⟨henabled, Int.le_of_eq hfree.symm, fun n hn => ?_⟩
    rw [(hsame n).1, hheld n (by omega)]
  | opened path mode node =>
    refine ⟨rfl, Int.le_of_lt (Int.lt_succ _), fun n hn => ?_⟩
    have hne : n ≠ t.freeFd := Int.ne_of_gt (Int.lt_of_add_one_le hn)
    simp [heldStep, hne]
  | copied _ hopen =>
    refine ⟨rfl, Int.le_refl _, fun n _ => ?_⟩
    by_cases hn : n = r
    · subst hn
      simp [heldStep, hopen]
    · simp [heldStep, hn, Ne.symm hn]
  | closed fd =>
    refine ⟨rfl, Int.le_refl _, fun n _ => ?_⟩
    by_cases hn : n = fd
    · subst hn
      simp [heldStep]
    · simp [heldStep, hn, Ne.symm hn]

/-- A call leaves every descriptor it neither targets nor returns. -/
lemma Effect.keeps {r d : Int} (h : t.Effect c r t') (hthree : 3 ≤ t.freeFd)
    (htarget : c.target ≠ some d)
    (hret : ∀ path mode, c = .openPath path mode → r ≠ -1 → r ≠ d) :
    (t.fdMap d).SameFile (t'.fdMap d) := by
  cases h with
  | quiet henabled hfree hsame hheld => exact hsame d
  | opened path mode node =>
    have hne : d ≠ t.freeFd := Ne.symm (hret path mode rfl (by omega))
    simp [FdData.SameFile, hne]
  | copied _ hopen =>
    have hne : d ≠ r := fun heq => htarget (congrArg some heq.symm)
    simp [FdData.SameFile, hne]
  | closed fd =>
    have hne : d ≠ fd := fun heq => htarget (congrArg some heq.symm)
    simp [FdData.SameFile, hne]

/-- The entry is set up, and the numbers from the counter on are free. -/
structure Started (t : ThreadVfsEntry ν) : Prop where
  enabled : t.enabled = true
  three_le : 3 ≤ t.freeFd
  free : ∀ n, t.freeFd ≤ n → (t.fdMap n).isOpen = false

/-- A standard descriptor is opened. -/
lemma Started.openStandard {oWronly newfd : Int} {path : List Char} (hs : t.Started)
    (h : t.openStandard mountList oWronly fs path newfd = some t') (hnew : newfd < 3) : t'.Started := by
  rcases map_eq_some_iff.1 h with ⟨⟨t₁, r⟩, hopen, heq⟩
  have h₁ : t₁.Started := by
    rcases openPath_cases hopen with ⟨rfl, _⟩ | ⟨_, node, rfl⟩
    · exact hs
    · refine ⟨hs.enabled, Int.le_trans hs.three_le (Int.le_of_lt (Int.lt_succ _)), fun n hn => ?_⟩
      have hlt : t.freeFd < n := Int.lt_of_add_one_le hn
      simp [Int.ne_of_gt hlt, hs.free n (Int.le_of_lt hlt)]
  have ht' : (t₁.dup2 r newfd).1 = t' := heq
  rcases dup2_cases t₁ r newfd with ⟨_, hr⟩ | ⟨_, _, hr⟩ | ⟨_, _, hr⟩
  · exact ht' ▸ hr ▸ h₁
  · exact ht' ▸ hr ▸ h₁
  · rw [hr] at ht'
    rw [← ht']
    refine ⟨h₁.enabled, h₁.three_le, fun n hn => ?_⟩
    have hle : t₁.freeFd ≤ n := hn
    have hne : n ≠ newfd := by
      have := h₁.three_le
      omega
    simp [hne, h₁.free n hle]

end ThreadVfsEntry

/-! ## Whole runs -/

/-- A thread that was not seen has the entry of a new one, and the numbers that the counter has not
come to are open exactly when `dup2` holds them. -/
structure Inv (v : Vfs ν) (trace : List (Event ν)) : Prop where
  three_le : ∀ tid, 3 ≤ (v.threadData tid).freeFd
  new : ∀ tid, (v.threadData tid).enabled = false → v.threadData tid = .new
  held : ∀ tid n, (v.threadData tid).freeFd ≤ n →
    ((v.threadData tid).fdMap n).isOpen = Held trace tid n

variable {v v' : Vfs ν} {trace : List (Event ν)} {q : Request ν} {a : Answer}

lemma inv_new (mountList : List Mount) (oWronly : Int) :
    Inv (Vfs.new mountList oWronly : Vfs ν) [] :=
  ⟨fun _ => Int.le_refl 3, fun _ _ => rfl, fun _ _ _ => rfl⟩

/-- The entry that a request works on: the one of the thread, or for a new thread one with the
standard descriptors.  Only `seek` and `tell` work on an entry that was not set up. -/
lemma Inv.entryFor {t : ThreadVfsEntry ν} (hinv : Inv v trace) (h : v.entryFor q = some t) :
    t = v.threadData q.tid ∧ (t.enabled = true ∨ q.call.usesEntry = false) ∨
      v.threadData q.tid = .new ∧ t.Started := by
  unfold Vfs.entryFor at h
  split at h
  · unfold Vfs.getThreadEntry at h
    by_cases henabled : (v.threadData q.tid).enabled = true
    · have ht : v.threadData q.tid = t := by simpa [henabled] using h
      exact .inl ⟨ht.symm, .inl (ht ▸ henabled)⟩
    · have hnew := hinv.new q.tid (by simpa using henabled)
      rw [hnew] at h
      rcases bind_eq_some_iff.1 h with ⟨t₁, hout, herr⟩
      have hstart : ({ (ThreadVfsEntry.new : ThreadVfsEntry ν) with enabled := true } :
          ThreadVfsEntry ν).Started :=
        ⟨rfl, Int.le_refl 3, fun _ _ => rfl⟩
      exact .inr ⟨hnew, (hstart.openStandard hout (by decide)).openStandard herr (by decide)⟩
  · next huses =>
    cases h
    exact .inl ⟨rfl, .inr (by simpa using huses)⟩

/-- What the entry a call works on says about held descriptors. -/
lemma Inv.entry_spec {t : ThreadVfsEntry ν} (hinv : Inv v trace) (h : v.entryFor q = some t) :
    3 ≤ t.freeFd ∧
      (∀ n, t.freeFd ≤ n → (t.fdMap n).isOpen = Held trace q.tid n) ∧
      ∀ d, ((v.threadData q.tid).fdMap d).isOpen = true → t.fdMap d = (v.threadData q.tid).fdMap d := by
  rcases hinv.entryFor h with ⟨rfl, _⟩ | ⟨hnew, hstarted⟩
  · exact ⟨hinv.three_le q.tid, hinv.held q.tid, fun _ _ => rfl⟩
  · have hheld : ∀ n, t.freeFd ≤ n → Held trace q.tid n = false := by
      intro n hn
      rw [← hinv.held q.tid n (by rw [hnew]; exact Int.le_trans hstarted.three_le hn), hnew]
      rfl
    refine ⟨hstarted.three_le, fun n hn => ?_, fun d hd => ?_⟩
    · rw [hstarted.free n hn, hheld n hn]
    · rw [hnew] at hd
      cases hd

/-- An entry that is not in use is a new one. -/
lemma Inv.call_new {t t' : ThreadVfsEntry ν} (hinv : Inv v trace) (h : v.entryFor q = some t)
    (hcall : t.call v.mountList q.fs q.call = some (t', a)) (hoff : t'.enabled = false) :
    t' = .new := by
  have heffect := (ThreadVfsEntry.effect_of_call hcall).isOpen (hinv.entry_spec h).1
  rw [heffect.1] at hoff
  rcases hinv.entryFor h with ⟨rfl, hset | huses⟩ | ⟨_, hstarted⟩
  · exact absurd hset (by simp [hoff])
  · rw [hinv.new q.tid hoff] at hcall
    cases hq : q.call with
    | seek fd offset whence =>
      rw [hq] at hcall
      cases hcall
      exact ThreadVfsEntry.seek_closed rfl
    | tell fd =>
      rw [hq] at hcall
      cases hcall
      rfl
    | _ =>
      -- the other calls set the entry up
      rw [hq] at huses
      cases huses
  · exact absurd hstarted.enabled (by simp [hoff])

/-- Every call keeps the invariant. -/
lemma Inv.step (hinv : Inv v trace) (h : v.step q = some (v', a)) : Inv v' (trace ++ [(q, a)]) := by
  rcases Vfs.step_some.1 h with ⟨t, t', hentry, hcall, rfl⟩
  rcases hinv.entry_spec hentry with ⟨hthree, hheld, _⟩
  rcases (ThreadVfsEntry.effect_of_call hcall).isOpen hthree with ⟨_, hle, hopen⟩
  constructor
  · intro tid
    by_cases htid : tid = q.tid
    · rw [htid, Vfs.setThreadEntry_self]
      exact Int.le_trans hthree hle
    · rw [Vfs.setThreadEntry_of_ne htid]
      exact hinv.three_le tid
  · intro tid hoff
    by_cases htid : tid = q.tid
    · rw [htid, Vfs.setThreadEntry_self] at hoff ⊢
      exact hinv.call_new hentry hcall hoff
    · rw [Vfs.setThreadEntry_of_ne htid] at hoff ⊢
      exact hinv.new tid hoff
  · intro tid n hn
    rw [held_append]
    by_cases htid : tid = q.tid
    · subst htid
      rw [Vfs.setThreadEntry_self] at hn ⊢
      rw [if_pos rfl, hopen n hn, hheld n (Int.le_trans hle hn)]
    · rw [Vfs.setThreadEntry_of_ne htid] at hn ⊢
      rw [if_neg (Ne.symm htid), hinv.held tid n hn]

lemma inv_of_run {mountList : List Mount} {oWronly : Int} {qs : List (Request ν)}
    (h : exec Vfs.stepTraced (Vfs.new mountList oWronly, []) qs = some (v, trace)) : Inv v trace := by
  have hrun : Run Vfs.stepTraced (fun _ _ => True) (Vfs.new mountList oWronly, []) (v, trace) :=
    exec_run h fun _ _ _ => trivial
  refine hrun.invariant (I := fun s => Inv s.1 s.2) (inv_new mountList oWronly) ?_
  intro s q s' hs _ hstep
  rcases map_eq_some_iff.1 hstep with ⟨r, hr, rfl⟩
  exact hs.step hr

/-- The number that `open` answers is open before the call exactly if `dup2` holds the number that the
counter has come to. -/
lemma Inv.open_isOpen (hinv : Inv v trace) (h : v.step q = some (v', a)) {path : List Char} {mode : Int}
    (hq : q.call = .openPath path mode) (hret : a.ret ≠ -1) :
    ((v.threadData q.tid).fdMap a.ret).isOpen =
      Held trace q.tid (v.threadData q.tid).freeFd := by
  rcases Vfs.step_some.1 h with ⟨t, t', hentry, hcall, _⟩
  rw [hq] at hcall
  rcases map_eq_some_iff.1 hcall with ⟨r, hopen, heq⟩
  have hr : a.ret = r.2 := congrArg (fun s => s.2.ret) heq.symm
  rcases ThreadVfsEntry.openPath_cases hopen with ⟨_, hfail⟩ | ⟨hnumber, _⟩
  · exact absurd (hr.trans hfail) hret
  · rw [← hinv.held q.tid _ (Int.le_refl _)]
    rcases hinv.entryFor hentry with ⟨rfl, _⟩ | ⟨hnew, _⟩
    · rw [hr, hnumber]
    · rw [hnew]
      rfl

/-- A step leaves an open descriptor that it neither targets nor returns. -/
lemma Inv.keeps (hinv : Inv v trace) (h : v.step q = some (v', a)) {tid : Nat} {d : Int}
    (hopen : ((v.threadData tid).fdMap d).isOpen = true)
    (htarget : tid = q.tid → q.call.target ≠ some d)
    (hret : ∀ path mode, q.call = .openPath path mode → tid = q.tid → a.ret ≠ -1 → a.ret ≠ d) :
    ((v.threadData tid).fdMap d).SameFile ((v'.threadData tid).fdMap d) := by
  rcases Vfs.step_some.1 h with ⟨t, t', hentry, hcall, rfl⟩
  by_cases htid : tid = q.tid
  · subst htid
    have hsame := (ThreadVfsEntry.effect_of_call hcall).keeps (hinv.entry_spec hentry).1 (htarget rfl)
      fun path mode hq => hret path mode hq rfl
    rw [(hinv.entry_spec hentry).2.2 d hopen] at hsame
    rw [Vfs.setThreadEntry_self]
    exact hsame
  · rw [Vfs.setThreadEntry_of_ne htid]
    exact .refl _

/-- In every run of calls of any threads, and for every call after it: a successful `open` answers a
number that is not open, and every open descriptor that the call is not directed at keeps its node and
mode, if and only if the call is no successful `open` of a thread whose counter has come to a number
that `dup2` holds. -/
theorem descriptors_fresh_iff {mountList : List Mount} {oWronly : Int} {qs : List (Request ν)}
    (hrun : exec Vfs.stepTraced (Vfs.new mountList oWronly, []) qs = some (v, trace))
    (hstep : v.step q = some (v', a)) :
    ((∀ path mode, q.call = .openPath path mode → a.ret ≠ -1 →
        ((v.threadData q.tid).fdMap a.ret).isOpen = false) ∧
      ∀ tid d, ((v.threadData tid).fdMap d).isOpen = true →
        (tid = q.tid → q.call.target ≠ some d) →
        ((v.threadData tid).fdMap d).SameFile ((v'.threadData tid).fdMap d)) ↔
    ∀ path mode, q.call = .openPath path mode → a.ret ≠ -1 →
      Held trace q.tid (v.threadData q.tid).freeFd = false := by
  have hinv := inv_of_run hrun
  constructor
  · rintro ⟨hfresh, _⟩ path mode hq hret
    rw [← hinv.open_isOpen hstep hq hret]
    exact hfresh path mode hq hret
  · intro hheld
    have hfresh : ∀ path mode, q.call = .openPath path mode → a.ret ≠ -1 →
        ((v.threadData q.tid).fdMap a.ret).isOpen = false := by
      intro path mode hq hret
      rw [hinv.open_isOpen hstep hq hret]
      exact hheld path mode hq hret
    refine ⟨hfresh, fun tid d hopen htarget => hinv.keeps hstep hopen htarget ?_⟩
    rintro path mode hq rfl hret hd
    have hclosed := hfresh path mode hq hret
    rw [hd, hopen] at hclosed
    cases hclosed

def anyFile : FileSystems Nat where
  openNode := fun _ path _ => some path.length
  read := fun _ _ _ => (0, [])
  write := fun _ _ _ _ => 0
  isFile := fun _ => true
  length := fun _ => 0#64

def rootOnly : Vfs Nat :=
  Vfs.new [⟨['/'], 0⟩] 1

theorem descriptors_fresh_next :
    ∃ v trace v' a,
      exec Vfs.stepTraced (rootOnly, [])
        [⟨0, anyFile, .openPath ['/', 'a'] 0⟩, ⟨0, anyFile, .dup2 5 7⟩] = some (v, trace) ∧
      v.step ⟨0, anyFile, .openPath ['/', 'b', 'c'] 0⟩ = some (v', a) ∧ a.ret = 6 ∧
      ((v.threadData 0).fdMap 7).SameFile ((v'.threadData 0).fdMap 7) := by
  have hcalls : ∃ v trace v' a,
      exec Vfs.stepTraced (rootOnly, [])
        [⟨0, anyFile, .openPath ['/', 'a'] 0⟩, ⟨0, anyFile, .dup2 5 7⟩] = some (v, trace) ∧
      v.step ⟨0, anyFile, .openPath ['/', 'b', 'c'] 0⟩ = some (v', a) ∧ a.ret = 6 ∧
      ((v.threadData 0).fdMap 7).isOpen = true ∧
      Held trace 0 (v.threadData 0).freeFd = false :=
    ⟨_, _, _, _, rfl, rfl, rfl, rfl, rfl⟩
  rcases hcalls with ⟨v, trace, v', a, hrun, hstep, hret, hopen, hheld⟩
  refine ⟨v, trace, v', a, hrun, hstep, hret, ?_⟩
  exact ((descriptors_fresh_iff hrun hstep).2 fun _ _ _ _ => hheld).2 0 7 hopen (by simp [Call.target])

/-- After `open` has answered 5, a `dup2` of 5 to 6 opens 6; the next `open` answers 6, and the
descriptor refers to another node. -/
theorem open_replaces_held :
    ∃ v trace v',
      exec Vfs.stepTraced (rootOnly, [])
        [⟨0, anyFile, .openPath ['/', 'a'] 0⟩, ⟨0, anyFile, .dup2 5 6⟩] = some (v, trace) ∧
      v.step ⟨0, anyFile, .openPath ['/', 'b', 'c'] 0⟩ = some (v', .status 6) ∧
      ((v.threadData 0).fdMap 6).isOpen = true ∧ ((v.threadData 0).fdMap 6).node = some 2 ∧
      ((v'.threadData 0).fdMap 6).node = some 3 := by
  refine ⟨_, _, _, rfl, rfl, rfl, rfl, rfl⟩

/-! ## A thread on its own -/

/-- The two states are the same for the calls of one thread. -/
structure Vfs.SameFor (tid : Nat) (v w : Vfs ν) : Prop where
  mountList : w.mountList = v.mountList
  oWronly : w.oWronly = v.oWronly
  entry : w.threadData tid = v.threadData tid

variable {w : Vfs ν}

lemma Vfs.SameFor.step (h : v.SameFor q.tid w) (hs : v.step q = some (v', a)) :
    ∃ w', w.step q = some (w', a) ∧ v'.SameFor q.tid w' := by
  rcases Vfs.step_some.1 hs with ⟨t, t', hentry, hcall, rfl⟩
  have hsame : w.entryFor q = v.entryFor q := by
    simp only [Vfs.entryFor, Vfs.getThreadEntry, h.mountList, h.oWronly, h.entry]
  refine ⟨w.setThreadEntry q.tid t', Vfs.step_some.2 ⟨t, t', hsame.trans hentry, ?_, rfl⟩, ?_⟩
  · rw [h.mountList]
    exact hcall
  · exact ⟨h.mountList, h.oWronly, by rw [Vfs.setThreadEntry_self, Vfs.setThreadEntry_self]⟩

lemma Vfs.SameFor.other {tid : Nat} (h : v.SameFor tid w) (hne : tid ≠ q.tid)
    (hs : v.step q = some (v', a)) : v'.SameFor tid w := by
  rcases Vfs.step_some.1 hs with ⟨t, t', _, _, rfl⟩
  exact ⟨h.mountList, h.oWronly, h.entry.trans (Vfs.setThreadEntry_of_ne hne).symm⟩

/-- Threads do not interfere: in every interleaving, the calls of a thread have the answers that they
have without the calls of the others, and leave it the same descriptors. -/
theorem threads_isolated (tid : Nat) {qs : List (Request ν)}
    (hrun : exec Vfs.stepTraced (v, []) qs = some (v', trace)) :
    ∃ w, exec Vfs.stepTraced (v, []) (qs.filter (·.tid = tid)) =
        some (w, trace.filter (·.1.tid = tid)) ∧ v'.SameFor tid w := by
  -- from the same point on, with what each run has recorded before it
  suffices hall : ∀ {v w v' : Vfs ν} {before trace}, v.SameFor tid w →
      exec Vfs.stepTraced (v, before) qs = some (v', trace) →
      ∃ w', exec Vfs.stepTraced (w, before.filter (·.1.tid = tid)) (qs.filter (·.tid = tid)) =
        some (w', trace.filter (·.1.tid = tid)) ∧ v'.SameFor tid w' from
    hall ⟨rfl, rfl, rfl⟩ hrun
  clear hrun
  induction qs with
  | nil =>
    intro v w v' before trace hsame h
    cases h
    exact ⟨w, rfl, hsame⟩
  | cons q qs ih =>
    intro v w v' before trace hsame h
    rcases exec_cons_some.1 h with ⟨s, hs, hrest⟩
    rcases map_eq_some_iff.1 hs with ⟨⟨v₁, a⟩, hstep, rfl⟩
    by_cases htid : q.tid = tid
    · subst htid
      rcases hsame.step hstep with ⟨w₁, hw, hsame₁⟩
      rcases ih hsame₁ hrest with ⟨w', hexec, hend⟩
      refine ⟨w', ?_, hend⟩
      simpa [exec, Vfs.stepTraced, hw] using hexec
    · rcases ih (hsame.other (Ne.symm htid) hstep) hrest with ⟨w', hexec, hend⟩
      refine ⟨w', ?_, hend⟩
      simpa [htid] using hexec

def interleaved : List (Request Nat) :=
  [⟨0, anyFile, .openPath ['/', 'a'] 0⟩, ⟨1, anyFile, .close 5⟩, ⟨0, anyFile, .dup2 5 6⟩]

theorem threads_isolated_two :
    ∃ v trace w, exec Vfs.stepTraced (rootOnly, []) interleaved = some (v, trace) ∧
      exec Vfs.stepTraced (rootOnly, []) (interleaved.filter (·.tid = 0)) =
        some (w, trace.filter (·.1.tid = 0)) := by
  have hdefined : ∃ v trace, exec Vfs.stepTraced (rootOnly, []) interleaved = some (v, trace) :=
    ⟨_, _, rfl⟩
  rcases hdefined with ⟨v, trace, hrun⟩
  rcases threads_isolated 0 hrun with ⟨w, hw, _⟩
  exact ⟨v, trace, w, hrun, hw⟩

end SigmaOS.Zeta
