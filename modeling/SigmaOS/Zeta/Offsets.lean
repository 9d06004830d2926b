import SigmaOS.Zeta.Descriptors

/-!
# Zeta.Offsets — the offset of a descriptor

A descriptor has an offset, which `read` and `write` pass to the file system and `tell` returns.
`turns` runs calls on one descriptor and keeps, for every call, the offset before and after it and
the answer.  `posixStep` is the offset that POSIX asks for: `read` and `write` advance it by what
they return, and `seek` sets it relative to the start, to itself or to the length of the file.
-/

namespace SigmaOS.Zeta

variable {ν : Type}

inductive FileCall where
  | read (count : Nat)
  | write (buf : List (BitVec 8)) (count : Nat)
  | seek (offset : BitVec 64) (whence : Whence)
  | tell
  deriving DecidableEq, Repr

def FileCall.on (fd : Int) : FileCall → Call
  | .read count => .read fd count
  | .write buf count => .write fd buf count
  | .seek offset whence => .seek fd offset whence
  | .tell => .tell fd

/-- The offset after a call that returned `ret`, on a file of the given length. -/
def posixStep (length off : BitVec 64) (c : FileCall) (ret : Int) : BitVec 64 :=
  match c with
  | .read _ | .write _ _ => if 0 < ret then off + BitVec.ofInt 64 ret else off
  | .seek o .set => o
  | .seek o .cur => off + o
  | .seek o .fromEnd => length + o
  | .seek _ .invalid => off
  | .tell => off

/-! ## Runs on one descriptor -/

/-- A call, its answer, the length of the file at that time and the offset around it. -/
structure Turn where
  length : BitVec 64
  before : BitVec 64
  call : FileCall
  answer : Answer
  after : BitVec 64
  deriving DecidableEq, Repr

def Vfs.offset (v : Vfs ν) (tid : Nat) (fd : Int) : BitVec 64 :=
  ((v.threadData tid).fdMap fd).offset

/-- The calls of a thread on the descriptor `fd`, which refers to `node`. -/
def turns (tid : Nat) (fd : Int) (node : ν) (v : Vfs ν) :
    List (FileSystems ν × FileCall) → Option (List Turn)
  | [] => some []
  | (fs, c) :: rest =>
    match v.step ⟨tid, fs, c.on fd⟩ with
    | none => none
    | some (v', a) =>
      (turns tid fd node v' rest).map
        (⟨fs.length node, v.offset tid fd, c, a, v'.offset tid fd⟩ :: ·)

/-- What the call of a turn shows of the offset: `read` and `write` pass it to the file system, and
`tell` returns it. -/
def Turn.Shows (t : Turn) (off : BitVec 64) : Prop :=
  match t.call with
  | .read _ | .write _ _ => t.answer.passed = some off
  | .seek _ _ => True
  | .tell => t.answer.ret = off.toNat

/-- The offset is the POSIX one around every call, and the calls show it. -/
def FollowsPosix : BitVec 64 → List Turn → Prop
  | _, [] => True
  | off, t :: rest =>
    t.before = off ∧ t.Shows off ∧ t.after = posixStep t.length off t.call t.answer.ret ∧
      FollowsPosix (posixStep t.length off t.call t.answer.ret) rest

/-- A call that should leave the offset, or sets it from the start of the file or to its end. -/
def Turn.Harmless (t : Turn) : Prop :=
  match t.call with
  | .read _ | .write _ _ => t.answer.ret ≤ 0
  | .seek o .cur | .seek o .fromEnd => o = 0#64
  | _ => True

/-! ## One call -/

/-- The thread is set up, and its descriptor is open on the node. -/
structure OpenOn (v : Vfs ν) (tid : Nat) (fd : Int) (node : ν) : Prop where
  enabled : (v.threadData tid).enabled = true
  isOpen : ((v.threadData tid).fdMap fd).isOpen = true
  node_eq : ((v.threadData tid).fdMap fd).node = some node

section Step

variable {v : Vfs ν} {tid : Nat} {fd : Int} {node : ν} {fs : FileSystems ν}

section

variable (h : OpenOn v tid fd node)
include h

lemma OpenOn.entryFor (c : Call) : v.entryFor ⟨tid, fs, c⟩ = some (v.threadData tid) := by
  unfold Vfs.entryFor Vfs.getThreadEntry
  simp [h.enabled]

lemma OpenOn.transfer (request : ν → BitVec 64 → BitVec 32 × List (BitVec 8)) :
    (v.threadData tid).transfer fd request =
      ⟨(request node (v.offset tid fd)).1.toInt, (request node (v.offset tid fd)).2,
        some (v.offset tid fd)⟩ := by
  simp [ThreadVfsEntry.transfer, h.isOpen, h.node_eq, Vfs.offset]

lemma OpenOn.step_eq {c : Call} {t' : ThreadVfsEntry ν} {a : Answer}
    (hcall : (v.threadData tid).call v.mountList fs c = some (t', a)) :
    v.step ⟨tid, fs, c⟩ = some (v.setThreadEntry tid t', a) :=
  Vfs.step_some.2 ⟨_, t', h.entryFor c, hcall, rfl⟩

lemma OpenOn.setFd (o : BitVec 64) :
    OpenOn (v.setThreadEntry tid
      ((v.threadData tid).setFd fd { (v.threadData tid).fdMap fd with offset := o })) tid fd node := by
  refine ⟨?_, ?_, ?_⟩
  · simpa using h.enabled
  · simpa using h.isOpen
  · simpa using h.node_eq

end

lemma eq_add_iff {off o : BitVec 64} : off = off + o ↔ o = 0#64 := by
  constructor
  · intro h
    bv_omega
  · rintro rfl
    rw [BitVec.add_zero]

lemma eq_add_ret_iff {off : BitVec 64} {ret : BitVec 32} :
    off = (if 0 < ret.toInt then off + BitVec.ofInt 64 ret.toInt else off) ↔ ret.toInt ≤ 0 := by
  by_cases hpos : 0 < ret.toInt
  · rw [if_pos hpos, eq_add_iff]
    have hword : BitVec.ofInt 64 ret.toInt = ret.signExtend 64 := rfl
    have hne : BitVec.ofInt 64 ret.toInt ≠ 0#64 := by
      intro hzero
      have hint : (ret.signExtend 64).toInt = ret.toInt := BitVec.toInt_signExtend_of_le (by decide)
      rw [← hword, hzero] at hint
      exact absurd hpos (by simp [← hint])
    exact ⟨fun hzero => absurd hzero hne, fun hle => absurd hpos (Int.not_lt.2 hle)⟩
  · rw [if_neg hpos]
    exact ⟨fun _ => Int.not_lt.1 hpos, fun _ => rfl⟩

/-- Every call on an open descriptor, and when it moves the offset as POSIX says. -/
lemma OpenOn.step (h : OpenOn v tid fd node) (hfile : fs.isFile node = true) (c : FileCall) :
    ∃ v' a, v.step ⟨tid, fs, c.on fd⟩ = some (v', a) ∧ OpenOn v' tid fd node ∧
      Turn.Shows ⟨fs.length node, v.offset tid fd, c, a, v'.offset tid fd⟩ (v.offset tid fd) ∧
      (v'.offset tid fd = posixStep (fs.length node) (v.offset tid fd) c a.ret ↔
        Turn.Harmless ⟨fs.length node, v.offset tid fd, c, a, v'.offset tid fd⟩) := by
  have hsame : v.setThreadEntry tid (v.threadData tid) = v := by simp [Vfs.setThreadEntry]
  cases c with
  | read count =>
    refine ⟨v, _, hsame ▸ h.step_eq rfl, h, ?_, ?_⟩
    · rw [h.transfer]
      rfl
    · rw [h.transfer]
      exact eq_add_ret_iff
  | write buf count =>
    refine ⟨v, _, hsame ▸ h.step_eq rfl, h, ?_, ?_⟩
    · rw [h.transfer]
      rfl
    · rw [h.transfer]
      exact eq_add_ret_iff
  | tell =>
    refine ⟨v, _, hsame ▸ h.step_eq rfl, h, ?_, iff_of_true rfl trivial⟩
    simp [Turn.Shows, Answer.status, ThreadVfsEntry.tell, h.isOpen, Vfs.offset]
  | seek o whence =>
    have hseek : (v.threadData tid).seek fs fd o whence = (v.threadData tid).setFd fd
        (((v.threadData tid).fdMap fd).seek (fs.length node) o whence) := by
      simp [ThreadVfsEntry.seek, h.isOpen, h.node_eq, hfile]
    rcases ThreadVfsEntry.seek_eq (v.threadData tid) fs fd o whence with ⟨o', ho'⟩
    refine ⟨_, _, h.step_eq rfl, ho' ▸ h.setFd o', trivial, ?_⟩
    rw [hseek]
    cases whence with
    | set => exact iff_of_true (by simp [Vfs.offset, FdData.seek, posixStep]) trivial
    | cur => simp [Vfs.offset, FdData.seek, posixStep, Turn.Harmless]
    | fromEnd => simp [Vfs.offset, FdData.seek, posixStep, Turn.Harmless]
    | invalid => exact iff_of_true (by simp [Vfs.offset, FdData.seek, posixStep]) trivial

end Step

section Runs

variable {tid : Nat} {fd : Int} {node : ν}

/-- So for sequences of calls. -/
lemma turns_posix_iff {rs : List (FileSystems ν × FileCall)} {v : Vfs ν}
    (h : OpenOn v tid fd node) (hfile : ∀ r ∈ rs, r.1.isFile node = true) :
    ∃ ts, turns tid fd node v rs = some ts ∧
      (FollowsPosix (v.offset tid fd) ts ↔ ∀ t ∈ ts, t.Harmless) := by
  induction rs generalizing v with
  | nil => exact ⟨[], rfl, by simp [FollowsPosix]⟩
  | cons r rs ih =>
    rcases r with ⟨fs, c⟩
    rcases h.step (hfile _ List.mem_cons_self) c with ⟨v', a, hstep, h', hshows, hagree⟩
    rcases ih h' fun r hr => hfile r (List.mem_cons_of_mem _ hr) with ⟨ts, hts, hrest⟩
    refine ⟨_, by simp only [turns, hstep, hts]; rfl, ?_⟩
    rw [List.forall_mem_cons, ← hagree, ← hrest]
    simp only [FollowsPosix]
    constructor
    · rintro ⟨_, _, hafter, hfollows⟩
      rw [← hafter] at hfollows
      exact ⟨hafter, hfollows⟩
    · rintro ⟨hafter, hfollows⟩
      rw [← hafter]
      exact ⟨trivial, hshows, rfl, hfollows⟩

/-- A successful open gives a descriptor at offset zero. -/
lemma openOn_of_open {v v' : Vfs ν} {fs : FileSystems ν} {path : List Char} {mode : Int}
    {a : Answer} (h : v.step ⟨tid, fs, .openPath path mode⟩ = some (v', a)) (hret : a.ret ≠ -1) :
    ∃ node, OpenOn v' tid a.ret node ∧ v'.offset tid a.ret = 0#64 := by
  rcases Vfs.step_some.1 h with ⟨t, t', hentry, hcall, rfl⟩
  have henabled : t.enabled = true := Vfs.getThreadEntry_enabled hentry
  rcases Option.map_eq_some_iff.1 hcall with ⟨⟨t₁, r⟩, hopen, heq⟩
  cases heq
  rcases ThreadVfsEntry.openPath_cases hopen with ⟨_, hfail⟩ | ⟨rfl, node, rfl⟩
  · exact absurd hfail hret
  · refine ⟨node, ⟨?_, ?_, ?_⟩, ?_⟩
    · simpa using henabled
    · simp [Answer.status]
    · simp [Answer.status]
    · simp [Answer.status, Vfs.offset]

end Runs

/-- After a successful `open` in any state, the descriptor has a node and the offset 0.  While the node
is a regular file, every sequence of calls on the descriptor has answers; and they follow the POSIX
offset, with the offset that they pass on and that `tell` returns, if and only if no `read` or `write`
returned a positive number and every `seek` from the current offset or from the end has the argument
0. -/
theorem offsets_posix_iff {v v₀ : Vfs ν} {fs₀ : FileSystems ν} {tid : Nat} {path : List Char}
    {mode : Int} {a : Answer} (hopen : v.step ⟨tid, fs₀, .openPath path mode⟩ = some (v₀, a))
    (hret : a.ret ≠ -1) :
    ∃ node, OpenOn v₀ tid a.ret node ∧ v₀.offset tid a.ret = 0#64 ∧
      ∀ rs : List (FileSystems ν × FileCall), (∀ r ∈ rs, r.1.isFile node = true) →
        ∃ ts, turns tid a.ret node v₀ rs = some ts ∧
          (FollowsPosix 0#64 ts ↔ ∀ t ∈ ts, t.Harmless) := by
  rcases openOn_of_open hopen hret with ⟨node, hon, hzero⟩
  refine ⟨node, hon, hzero, fun rs hfile => ?_⟩
  rw [← hzero]
  exact turns_posix_iff hon hfile

def fourBytes : FileSystems Nat where
  openNode := fun _ path _ => some path.length
  read := fun _ count offset =>
    let data := ([1#8, 2#8, 3#8, 4#8].drop offset.toNat).take count
    (BitVec.ofNat 32 data.length, data)
  write := fun _ _ _ _ => 0
  isFile := fun _ => true
  length := fun _ => 4#64

theorem offsets_posix_seeks :
    ∃ v₀ a, rootOnly.step ⟨0, fourBytes, .openPath ['/', 'a'] 0⟩ = some (v₀, a) ∧
      ∃ ts, turns 0 5 2 v₀ [(fourBytes, .seek 3#64 .set), (fourBytes, .tell)] = some ts ∧
        FollowsPosix 0#64 ts := by
  refine ⟨_, _, rfl, ?_⟩
  have hopen : rootOnly.step ⟨0, fourBytes, .openPath ['/', 'a'] 0⟩ = some (_, _) := rfl
  rcases offsets_posix_iff hopen (by decide) with ⟨node, hon, _, hruns⟩
  have hnode : 2 = node := Option.some.inj hon.node_eq
  subst hnode
  rcases hruns [(fourBytes, .seek 3#64 .set), (fourBytes, .tell)] (by simp [fourBytes]) with
    ⟨ts, hts, hiff⟩
  refine ⟨ts, hts, hiff.2 ?_⟩
  have hcalls : ts.map Turn.call = [.seek 3#64 .set, .tell] := by
    cases hts
    rfl
  intro t ht
  have hcall : t.call = .seek 3#64 .set ∨ t.call = .tell := by
    simpa [hcalls] using List.mem_map_of_mem (f := Turn.call) ht
  rcases hcall with hcall | hcall <;> simp [Turn.Harmless, hcall]

/-- Two reads of two bytes return the same bytes. -/
theorem reads_repeat :
    ∃ v₀ a ts, rootOnly.step ⟨0, fourBytes, .openPath ['/', 'a'] 0⟩ = some (v₀, a) ∧
      turns 0 5 2 v₀ [(fourBytes, .read 2), (fourBytes, .read 2)] = some ts ∧
      ts.map (·.answer.data) = [[1#8, 2#8], [1#8, 2#8]] := by
  exact ⟨_, _, _, rfl, rfl, rfl⟩

end SigmaOS.Zeta
