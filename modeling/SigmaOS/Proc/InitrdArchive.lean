import SigmaOS.Proc.Initrd

/-!
# Proc.InitrdArchive — what the initrd makes of an archive

`archive` writes a list of members as a TAR archive: a header of 512 bytes for each, its contents
filled up with zeros to whole blocks, and zero blocks in the end.

An archive lies in memory where `Holds` says so; addresses are added in 64 bits, as in the kernel.
-/

namespace SigmaOS.Proc.Initrd

open List

/-! ## Writing archives -/

/-- A file with its name.  `rest` gives the bytes of the header that hold neither the name nor the
size. -/
structure Member where
  name : List (BitVec 8)
  content : List (BitVec 8)
  rest : Nat → BitVec 8
  named : name ≠ []
  nul_free : 0#8 ∉ name
  short : name.length ≤ 99
  small : content.length < 8 ^ 11

/-- The digit `j` of eleven octal digits for `n`, the most significant one first. -/
def octalDigit (n j : Nat) : BitVec 8 :=
  BitVec.ofNat 8 (48 + n / 8 ^ (10 - j) % 8)

/-- Byte `i` of the header: the name with its terminating zero, the digits of the size from byte
124. -/
def Member.headerByte (m : Member) (i : Nat) : BitVec 8 :=
  if i < m.name.length then
    m.name.getD i 0#8
  else if i = m.name.length then
    0#8
  else if 124 ≤ i ∧ i < 135 then
    octalDigit m.content.length (i - 124)
  else
    m.rest i

def Member.header (m : Member) : List (BitVec 8) :=
  (List.range 512).map m.headerByte

def padding (n : Nat) : Nat :=
  (512 - n % 512) % 512

def Member.bytes (m : Member) : List (BitVec 8) :=
  m.header ++ (m.content ++ List.replicate (padding m.content.length) 0#8)

/-- The archive of the members, with `zeros` more zero blocks than the one it must end with. -/
def archive (members : List Member) (zeros : Nat) : List (BitVec 8) :=
  members.flatMap Member.bytes ++ List.replicate (512 * (zeros + 1)) 0#8

def Holds (mem : BitVec 64 → BitVec 8) (a : BitVec 64) (bytes : List (BitVec 8)) : Prop :=
  ∀ i b, bytes[i]? = some b → mem (a + BitVec.ofNat 64 i) = b

def copied (r : Initrd) (src size : BitVec 64) : List (BitVec 8) :=
  (List.range size.toNat).map fun k => r.mem (src + BitVec.ofNat 64 k)

section Holds

variable {mem : BitVec 64 → BitVec 8} {a : BitVec 64}

variable {b : BitVec 8} {bs : List (BitVec 8)}

lemma Holds.left {xs ys : List (BitVec 8)} (h : Holds mem a (xs ++ ys)) : Holds mem a xs := by
  intro i b hi
  apply h
  rw [List.getElem?_append_left (List.getElem?_eq_some_iff.1 hi).1]
  exact hi

lemma Holds.right {xs ys : List (BitVec 8)} (h : Holds mem a (xs ++ ys)) :
    Holds mem (a + BitVec.ofNat 64 xs.length) ys := by
  intro i b hi
  rw [BitVec.add_assoc, ← BitVec.ofNat_add]
  apply h
  rw [List.getElem?_append_right (Nat.le_add_right _ _), Nat.add_sub_cancel_left]
  exact hi

lemma Holds.head (h : Holds mem a (b :: bs)) : mem a = b := by
  simpa using h 0 b rfl

lemma Holds.tail (h : Holds mem a (b :: bs)) : Holds mem (a + 1#64) bs := by
  intro i b' hi
  have hnext := h (i + 1) b' (by simpa using hi)
  rw [BitVec.add_assoc, ← BitVec.ofNat_add, Nat.add_comm 1 i]
  exact hnext

lemma Holds.slice {bytes : List (BitVec 8)} (h : Holds mem a bytes) {offset size : BitVec 64}
    (hend : offset.toNat + size.toNat ≤ bytes.length) {r : Initrd} (hr : r.mem = mem) :
    r.copied (a + offset) size = (bytes.drop offset.toNat).take size.toNat := by
  apply ext_getElem?
  intro k
  by_cases hk : k < size.toNat
  · have hget : bytes[offset.toNat + k]? = some (bytes[offset.toNat + k]) :=
      List.getElem?_eq_getElem (by omega)
    have hbyte := h (offset.toNat + k) _ hget
    have haddr : a + offset + BitVec.ofNat 64 k = a + BitVec.ofNat 64 (offset.toNat + k) := by
      rw [BitVec.ofNat_add, BitVec.ofNat_toNat, BitVec.setWidth_eq, BitVec.add_assoc]
    rw [List.getElem?_take_of_lt hk, List.getElem?_drop, hget, copied, List.getElem?_map,
      List.getElem?_range hk, hr]
    show some (mem (a + offset + BitVec.ofNat 64 k)) = _
    rw [haddr, hbyte]
  · rw [List.getElem?_eq_none (by simpa [copied] using hk),
      List.getElem?_eq_none (by simp; omega)]

end Holds

section Header

variable {mem : BitVec 64 → BitVec 8} {a : BitVec 64} {m : Member}

lemma octalDigit_value (n j : Nat) :
    (octalDigit n j).signExtend 64 - 48#64 = BitVec.ofNat 64 (n / 8 ^ (10 - j) % 8) := by
  have hall : ∀ d < 8, (BitVec.ofNat 8 (48 + d)).signExtend 64 - 48#64 = BitVec.ofNat 64 d := by
    decide
  exact hall _ (Nat.mod_lt _ (by decide))

/-- With `k` digits read from the right, `size` is the number modulo `8 ^ k`. -/
lemma headerNumberLoop_octal {digits : BitVec 64} {n : Nat}
    (hdigits : ∀ j < 11, mem (digits + BitVec.ofNat 64 j) = octalDigit n j) (j : Nat) :
    ∀ k, j + k = 11 →
      headerNumberLoop mem digits j (BitVec.ofNat 64 (8 ^ k)) (BitVec.ofNat 64 (n % 8 ^ k)) =
        BitVec.ofNat 64 (n % 8 ^ 11) := by
  induction j with
  | zero =>
    intro k hk
    have hlast : k = 11 := by omega
    rw [hlast]
    rfl
  | succ j ih =>
    intro k hk
    -- one digit more: the factor and the sum go on with it
    have hcount : BitVec.ofNat 64 (8 ^ k) * 8#64 = BitVec.ofNat 64 (8 ^ (k + 1)) := by
      rw [← BitVec.ofNat_mul, ← Nat.pow_succ]
    have hplace : 10 - j = k := by omega
    have hsize : BitVec.ofNat 64 (n % 8 ^ k) +
        BitVec.ofNat 64 (n / 8 ^ k % 8) * BitVec.ofNat 64 (8 ^ k) =
          BitVec.ofNat 64 (n % 8 ^ (k + 1)) := by
      rw [← BitVec.ofNat_mul, ← BitVec.ofNat_add, Nat.mod_pow_succ, Nat.mul_comm (8 ^ k)]
    rw [headerNumberLoop, hdigits j (by omega), octalDigit_value, hplace, hcount, hsize]
    exact ih (k + 1) (by omega)

lemma getHeaderNumber_octal {digits : BitVec 64} {n : Nat} (hn : n < 8 ^ 11)
    (hdigits : ∀ j < 11, mem (digits + BitVec.ofNat 64 j) = octalDigit n j) :
    getHeaderNumber mem digits = BitVec.ofNat 64 n := by
  have hloop := headerNumberLoop_octal hdigits 11 0 rfl
  rw [Nat.pow_zero, Nat.mod_one, Nat.mod_eq_of_lt hn] at hloop
  exact hloop

lemma Holds.headerByte (h : Holds mem a m.header) {i : Nat} (hi : i < 512) :
    mem (a + BitVec.ofNat 64 i) = m.headerByte i := by
  apply h
  simp [Member.header, hi]

lemma Holds.memberSize {r : Initrd} (hr : r.mem = mem) (h : Holds mem a m.header) :
    r.memberSize a = BitVec.ofNat 64 m.content.length := by
  rw [Initrd.memberSize, hr]
  apply getHeaderNumber_octal m.small
  intro j hj
  have hshort := m.short
  -- at most 99 bytes of name and its zero come before byte 124
  rw [BitVec.add_assoc, ← BitVec.ofNat_add, h.headerByte (by omega), Member.headerByte,
    if_neg (by omega), if_neg (by omega), if_pos (by omega), Nat.add_sub_cancel_left]

/-- The comparison of names, up to the zero. -/
lemma sameString_iff {xs : List (BitVec 8)} (hxs : 0#8 ∉ xs) (ys : List (BitVec 8)) :
    ∀ (a : BitVec 64), 0#8 ∉ ys → Holds mem a (xs ++ [0#8]) →
      (sameString mem a ys = true ↔ xs = ys) := by
  -- both strings are followed until one of them ends
  induction xs generalizing ys with
  | nil =>
    intro a hys h
    cases ys with
    | nil => simp [sameString, h.head]
    | cons c cs =>
      have hc : 0#8 ≠ c := fun hc => hys (by simp [hc])
      simp [sameString, h.head, hc]
  | cons x xs ih =>
    intro a hys h
    have hx : x ≠ 0#8 := fun hx => hxs (by simp [hx])
    cases ys with
    | nil => simp [sameString, h.head, hx]
    | cons c cs =>
      have hc : c ≠ 0#8 := fun hc => hys (by simp [hc])
      have hrest := ih (fun hmem => hxs (mem_cons_of_mem _ hmem)) cs (a + 1#64)
        (fun hmem => hys (mem_cons_of_mem _ hmem)) h.tail
      simp [sameString, h.head, hc, hrest]

lemma Holds.name (h : Holds mem a m.header) : Holds mem a (m.name ++ [0#8]) := by
  intro i b hi
  have hlt : i < m.name.length + 1 := by simpa using (List.getElem?_eq_some_iff.1 hi).1
  have hshort := m.short
  rw [h.headerByte (by omega), Member.headerByte]
  by_cases hname : i < m.name.length
  · rw [if_pos hname, getD_eq_getElem?_getD]
    rw [List.getElem?_append_left hname] at hi
    rw [hi, Option.getD_some]
  · have hend : i = m.name.length := by omega
    simpa [hend] using hi

lemma Holds.sameString_name (h : Holds mem a m.header) {name : List (BitVec 8)}
    (hname : 0#8 ∉ name) : sameString mem a name = decide (m.name = name) := by
  rw [Bool.eq_iff_iff, decide_eq_true_iff]
  exact sameString_iff m.nul_free name a hname h.name

lemma Holds.valid (h : Holds mem a m.header) : mem a ≠ 0#8 := by
  have hname := h.name
  cases hm : m.name with
  | nil => exact absurd hm m.named
  | cons c cs =>
    rw [hm] at hname
    rw [hname.head]
    rintro rfl
    exact m.nul_free (by simp [hm])

end Header

@[simp] lemma Member.length_header (m : Member) : m.header.length = 512 := by
  simp [Member.header]

/-- Where the members of an archive at `a` start. -/
def starts (a : BitVec 64) : List Member → List (BitVec 64)
  | [] => []
  | m :: ms => a :: starts (a + BitVec.ofNat 64 m.bytes.length) ms

/-- The next header is where the member ends. -/
lemma next_start (m : Member) (a : BitVec 64) :
    (if BitVec.ofNat 64 m.content.length % 512#64 = 0#64 then
        a + (BitVec.ofNat 64 m.content.length / 512#64 + 1#64) * 512#64
      else
        a + (BitVec.ofNat 64 m.content.length / 512#64 + 1#64) * 512#64 + 512#64) =
      a + BitVec.ofNat 64 m.bytes.length := by
  have hsmall : m.content.length < 2 ^ 64 := Nat.lt_of_lt_of_le m.small (by decide)
  have hlen : m.bytes.length = 512 + (m.content.length + padding m.content.length) := by
    simp [Member.bytes]
  -- from here on it is arithmetic of numbers that fit into 64 bits
  generalize m.content.length = n at hsmall hlen
  have hdiv : BitVec.ofNat 64 n / 512#64 = BitVec.ofNat 64 (n / 512) := by
    apply BitVec.eq_of_toNat_eq
    rw [BitVec.toNat_udiv, BitVec.toNat_ofNat, BitVec.toNat_ofNat, BitVec.toNat_ofNat,
      Nat.mod_eq_of_lt hsmall, Nat.mod_eq_of_lt (Nat.lt_of_le_of_lt (Nat.div_le_self n 512) hsmall)]
  have hmod : BitVec.ofNat 64 n % 512#64 = 0#64 ↔ n % 512 = 0 := by
    rw [← BitVec.toNat_inj, BitVec.toNat_umod, BitVec.toNat_ofNat, Nat.mod_eq_of_lt hsmall]
    rfl
  have hround : (BitVec.ofNat 64 (n / 512) + 1#64) * 512#64 =
      BitVec.ofNat 64 ((n / 512 + 1) * 512) := by
    rw [BitVec.ofNat_mul, BitVec.ofNat_add]
  rw [hdiv, hround, hlen, padding]
  -- without a remainder there is no block more
  by_cases hzero : n % 512 = 0
  · have hblocks : (n / 512 + 1) * 512 = 512 + (n + (512 - n % 512) % 512) := by omega
    rw [if_pos (hmod.2 hzero), hblocks]
  · have hblocks : (n / 512 + 1) * 512 + 512 = 512 + (n + (512 - n % 512) % 512) := by omega
    rw [if_neg (fun h => hzero (hmod.1 h)), BitVec.add_assoc, ← BitVec.ofNat_add, hblocks]

lemma archive_cons (m : Member) (ms : List Member) (zeros : Nat) :
    archive (m :: ms) zeros = m.bytes ++ archive ms zeros := by
  simp [archive]

variable {mem : BitVec 64 → BitVec 8} {zeros : Nat}

/-- The loop finds the members of an archive. -/
lemma initLoop_archive (members : List Member) :
    ∀ (n : Nat) (a : BitVec 64), members.length ≤ n → Holds mem a (archive members zeros) →
      initLoop mem n a = starts a members := by
  induction members with
  | nil =>
    intro n a _ h
    -- an archive without members is a zero block, where the loop stops
    have hzero : mem a = 0#8 := by
      exact h.head
    cases n with
    | zero => rfl
    | succ n =>
      rw [initLoop, if_pos hzero]
      rfl
  | cons m ms ih =>
    intro n a hn h
    cases n with
    | zero =>
      -- there are as many rounds as bytes, hence enough for all members
      simp at hn
    | succ n =>
      rw [archive_cons] at h
      have hheader : Holds mem a m.header := h.left.left
      have hsize : getHeaderNumber mem (a + 124#64) = BitVec.ofNat 64 m.content.length :=
        hheader.memberSize (r := ⟨mem, []⟩) rfl
      rw [initLoop, if_neg hheader.valid, hsize, starts]
      refine congrArg (a :: ·) ?_
      show initLoop mem n (if _ then _ else _) = _
      rw [next_start]
      exact ih n _ (by simpa using hn) h.right

/-- Searching the headers finds the member listed first under the name. -/
lemma find_starts {name : List (BitVec 8)} (hname : 0#8 ∉ name) (members : List Member) :
    ∀ a, Holds mem a (archive members zeros) →
      ((starts a members).find? (fun header => sameString mem header name) = none ∧
          members.find? (fun m => m.name = name) = none) ∨
        ∃ header m, (starts a members).find? (fun header => sameString mem header name) =
            some header ∧
          members.find? (fun m => m.name = name) = some m ∧ Holds mem header m.bytes := by
  induction members with
  | nil =>
    intro a _
    exact .inl ⟨rfl, rfl⟩
  | cons m ms ih =>
    intro a h
    rw [archive_cons] at h
    -- headers and members are searched side by side
    have hsame := h.left.left.sameString_name hname
    by_cases hm : m.name = name
    · exact .inr ⟨a, m, by simp [starts, hsame, hm], by simp [hm], h.left⟩
    · simpa [starts, hsame, hm] using ih _ h.right

/-! ## Reading files of an archive -/

lemma length_le_archive (members : List Member) (zeros : Nat) :
    members.length ≤ (archive members zeros).length := by
  induction members with
  | nil => simp
  | cons m ms ih =>
    rw [archive_cons, length_append, length_cons]
    have hbytes : 1 ≤ m.bytes.length := by
      simp only [Member.bytes, length_append, Member.length_header]
      omega
    omega

lemma init_headers {members : List Member} {address : BitVec 64}
    (hsize : (archive members zeros).length < 2 ^ 64)
    (hmem : Holds mem address (archive members zeros)) :
    (init mem address (BitVec.ofNat 64 (archive members zeros).length)).headers =
      starts address members := by
  apply initLoop_archive members _ _ _ hmem
  rw [BitVec.toNat_ofNat, Nat.mod_eq_of_lt hsize]
  exact length_le_archive members zeros

/-- `init` on an archive whose size fits into its 64-bit argument: every size and every part of a
file is that of the first member with the name. -/
theorem init_decodes_archive (members : List Member) (zeros : Nat) (mem : BitVec 64 → BitVec 8)
    (address : BitVec 64) (hsize : (archive members zeros).length < 2 ^ 64)
    (hmem : Holds mem address (archive members zeros)) :
    (∀ name, 0#8 ∉ name →
      ((init mem address (BitVec.ofNat 64 (archive members zeros).length)).getSize name).toNat =
        ((members.find? fun m => m.name = name).map fun m => m.content.length).getD 0) ∧
    ∀ name m (offset size : BitVec 64), (members.find? fun m => m.name = name) = some m →
      offset.toNat + size.toNat ≤ m.content.length →
      ∃ src, (init mem address (BitVec.ofNat 64 (archive members zeros).length)).readFile
          name offset size = some src ∧
        (init mem address (BitVec.ofNat 64 (archive members zeros).length)).copied src size =
          (m.content.drop offset.toNat).take size.toNat := by
  have hheaders := init_headers hsize hmem
  have hr : (init mem address (BitVec.ofNat 64 (archive members zeros).length)).mem = mem := rfl
  generalize init mem address (BitVec.ofNat 64 (archive members zeros).length) = r at hheaders hr
  have hfind : ∀ name, r.find name =
      (starts address members).find? fun header => sameString mem header name := by
    intro name
    rw [find, hheaders, hr]
  constructor
  · intro name hname
    rcases find_starts hname members address hmem with ⟨hnone, hno⟩ | ⟨header, m, hsome, hm, hheld⟩
    · rw [getSize, hfind, hnone, hno]
      rfl
    · rw [getSize, hfind, hsome, hm]
      show (r.memberSize header).toNat = m.content.length
      rw [hheld.left.memberSize hr, BitVec.toNat_ofNat]
      exact Nat.mod_eq_of_lt (Nat.lt_of_lt_of_le m.small (by decide))
  · intro name m offset size hm hend
    -- the name asked for is the name of a member
    have hname : 0#8 ∉ name := by
      have heq : m.name = name := by simpa using List.find?_some hm
      rw [← heq]
      exact m.nul_free
    rcases find_starts hname members address hmem with ⟨_, hno⟩ | ⟨header, m', hsome, hm', hheld⟩
    · rw [hm] at hno
      cases hno
    · have heq : m = m' := by simpa [hm] using hm'
      subst heq
      have hlen := hheld.left.memberSize hr
      have hsmall : m.content.length + 1 < 2 ^ 64 :=
        Nat.lt_of_le_of_lt (Nat.succ_le_of_lt m.small) (by decide)
      refine ⟨memberData header + offset, ?_, ?_⟩
      · rw [readFile_of_find ((hfind name).trans hsome), hlen, if_neg]
        -- no sum wraps, so the request passes the check
        rw [passes_iff, BitVec.toNat_ofNat, Nat.mod_eq_of_lt (by omega)]
        omega
      · have hcontent := hheld.right.left
        rw [Member.length_header] at hcontent
        exact hcontent.slice hend hr

def place (a : BitVec 64) (bytes : List (BitVec 8)) : BitVec 64 → BitVec 8 :=
  fun b => bytes.getD (b - a).toNat 0#8

lemma holds_place {a : BitVec 64} {bytes : List (BitVec 8)} (h : bytes.length < 2 ^ 64) :
    Holds (place a bytes) a bytes := by
  intro i b hi
  have hlt := (List.getElem?_eq_some_iff.1 hi).1
  have hback : (a + BitVec.ofNat 64 i - a).toNat = i := by
    rw [BitVec.add_comm, BitVec.add_sub_cancel, BitVec.toNat_ofNat, Nat.mod_eq_of_lt (by omega)]
  rw [place, hback, getD_eq_getElem?_getD, hi, Option.getD_some]

def threeBytes : Member where
  name := [102#8]
  content := [1#8, 2#8, 3#8]
  rest := fun _ => 0#8
  named := by decide
  nul_free := by decide
  short := by decide
  small := by decide

/-- Another file under the same name. -/
def oneByte : Member :=
  { threeBytes with content := [9#8], small := by decide }

lemma length_archive_repeated : (archive [threeBytes, oneByte] 0).length = 2560 := by
  rw [archive, length_append, length_replicate, flatMap_cons, flatMap_singleton, length_append,
    Member.bytes, Member.bytes]
  simp only [length_append, Member.length_header, length_replicate]
  rfl

/-- Two members have the name: two bytes are read from the middle of the first one. -/
theorem init_decodes_threeBytes :
    ∃ src, (init (place 4096#64 (archive [threeBytes, oneByte] 0)) 4096#64
          (BitVec.ofNat 64 (archive [threeBytes, oneByte] 0).length)).readFile
            [102#8] 1#64 2#64 = some src ∧
      (init (place 4096#64 (archive [threeBytes, oneByte] 0)) 4096#64
          (BitVec.ofNat 64 (archive [threeBytes, oneByte] 0).length)).copied src 2#64 =
            [2#8, 3#8] := by
  have hsize : (archive [threeBytes, oneByte] 0).length < 2 ^ 64 := by
    rw [length_archive_repeated]
    decide
  exact (init_decodes_archive [threeBytes, oneByte] 0 _ 4096#64 hsize (holds_place hsize)).2 [102#8]
    threeBytes 1#64 2#64 rfl (by decide)

end SigmaOS.Proc.Initrd
