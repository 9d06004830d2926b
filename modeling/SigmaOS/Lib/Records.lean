import Mathlib.Algebra.Group.Nat.Defs

/-!
# Records — loops over records that carry their own length

A block of bytes holds records one after the other, each with its length in it.  A reader goes from
record to record by adding the length that it finds.  This file defines:

* `field bytes o n` and `read bytes o n` — the little-endian number in the `n` bytes at `o`, and the
  access to it, which fails when one of these bytes is not there;
* `scan limit visit fuel o s` — the loop: it visits the record at `o`, goes on by the length that the
  visit answers, and ends when the offset is not below `limit`;
* `Reached limit len o p` — the offset `p` is one that the loop comes to from `o`.

A loop ends without a fault exactly when every record that it comes to fits and has a length other
than 0 (`reached_of_scan`, `scan_of_reached`).  Over the encoding of a list of records it goes through
the list (`scan_encoded`).
-/

namespace SigmaOS.Lib.Records

open List

abbrev Bytes := List (BitVec 8)

/-- Why a loop has no result: an access outside of the block, or no end within the rounds given. -/
inductive Fault where
  | overrun
  | outOfFuel
  deriving DecidableEq, Repr

def decodeLe : Bytes → Nat
  | [] => 0
  | b :: bs => b.toNat + 256 * decodeLe bs

def encodeLe : Nat → Nat → Bytes
  | 0, _ => []
  | n + 1, v => BitVec.ofNat 8 v :: encodeLe n (v / 256)

variable {n : Nat} {bytes : Bytes}

variable {v o : Nat}

@[simp] lemma length_encodeLe : (encodeLe n v).length = n := by
  induction n generalizing v with
  | zero => rfl
  | succ n ih => simp [encodeLe, ih]

/-- The low and the high half of a word, put together. -/
lemma join_halves (data : BitVec 64) :
    (data.setWidth 32).setWidth 64 ||| (((data >>> 32).setWidth 32).setWidth 64 <<< 32) = data := by
  apply BitVec.eq_of_getLsbD_eq
  intro i hi
  by_cases hlow : i < 32
  · simp [hi, hlow]
  · have hhigh : i - 32 < 32 := by omega
    have hsum : 32 + (i - 32) = i := by omega
    simp [hi, hlow, hhigh, hsum]

lemma decodeLe_encodeLe : decodeLe (encodeLe n v) = v % 256 ^ n := by
  induction n generalizing v with
  | zero => simp [encodeLe, decodeLe, Nat.mod_one]
  | succ n ih =>
    calc
      decodeLe (encodeLe (n + 1) v) = v % 256 + 256 * (v / 256 % 256 ^ n) := by
        simp [encodeLe, decodeLe, ih]
      _ = v % (256 * 256 ^ n) := (Nat.mod_mul).symm
      _ = v % 256 ^ (n + 1) := by rw [Nat.pow_succ']

lemma decodeLe_lt {bs : Bytes} : decodeLe bs < 256 ^ bs.length := by
  induction bs with
  | nil => simp [decodeLe]
  | cons b bs ih =>
    rw [length_cons, Nat.pow_succ', decodeLe]
    omega

/-! ## Access to the bytes -/

def field (bytes : Bytes) (o n : Nat) : Nat :=
  decodeLe ((bytes.drop o).take n)

def read (bytes : Bytes) (o n : Nat) : Except Fault Nat :=
  if o + n ≤ bytes.length then .ok (field bytes o n) else .error .overrun

lemma read_ok (h : o + n ≤ bytes.length) : read bytes o n = .ok (field bytes o n) :=
  if_pos h

lemma read_bind {α : Type} {f : Nat → Except Fault α} :
    (read bytes o n >>= f) =
      if o + n ≤ bytes.length then f (field bytes o n) else .error .overrun := by
  unfold read
  split <;> rfl

lemma read_eq_ok : read bytes o n = .ok v ↔ o + n ≤ bytes.length ∧ field bytes o n = v := by
  unfold read
  split <;> simp [*]

lemma bind_eq_ok {α β : Type} {x : Except Fault α} {f : α → Except Fault β} {b : β} :
    (x >>= f) = .ok b ↔ ∃ a, x = .ok a ∧ f a = .ok b := by
  cases x <;> simp [bind, Except.bind]

lemma field_lt : field bytes o n < 256 ^ n :=
  Nat.lt_of_lt_of_le decodeLe_lt (Nat.pow_le_pow_right (by decide) (length_take_le n _))

lemma field_append {before record after : Bytes} {k : Nat} (h : k + n ≤ record.length) :
    field (before ++ (record ++ after)) (before.length + k) n = field record k n := by
  have hk : k ≤ record.length := Nat.le_trans (Nat.le_add_right k n) h
  unfold field
  rw [drop_length_add_append, drop_append_of_le_length hk, take_append_of_le_length]
  rw [length_drop]
  exact Nat.le_sub_of_add_le (Nat.add_comm n k ▸ h)

lemma ofNat_decodeLe {w : Nat} (v : BitVec w) (h : 2 ^ w ≤ 256 ^ n) :
    BitVec.ofNat w (decodeLe (encodeLe n v.toNat)) = v := by
  rw [decodeLe_encodeLe, Nat.mod_eq_of_lt (Nat.lt_of_lt_of_le v.isLt h), BitVec.ofNat_toNat,
    BitVec.setWidth_eq]

lemma ofNat_decodeLe_byte (b : BitVec 8) : BitVec.ofNat 8 (decodeLe [b]) = b := by
  simp [decodeLe]

section Loop

variable {σ : Type}

def scan (limit : Nat) (visit : Nat → σ → Except Fault (σ × Nat)) :
    Nat → Nat → σ → Except Fault σ
  | 0, _, _ => .error .outOfFuel
  | fuel + 1, o, s =>
    if o < limit then
      match visit o s with
      | .error f => .error f
      | .ok (s', n) => scan limit visit fuel (o + n) s'
    else
      .ok s

/-- The offsets that a loop comes to which starts at `o` and finds the lengths `len`. -/
inductive Reached (limit : Nat) (len : Nat → Nat) (o : Nat) : Nat → Prop where
  | start : Reached limit len o o
  | next {p : Nat} : Reached limit len o p → p < limit → Reached limit len o (p + len p)

variable {limit : Nat} {len : Nat → Nat} {fits : Nat → Prop}
  {visit : Nat → σ → Except Fault (σ × Nat)}

lemma Reached.head {o p : Nat} (h : Reached limit len o p) :
    p = o ∨ o < limit ∧ Reached limit len (o + len o) p := by
  induction h with
  | start => exact .inl rfl
  | @next p _ hp ih =>
    rcases ih with rfl | ⟨ho, hrest⟩
    · exact .inr ⟨hp, .start⟩
    · exact .inr ⟨ho, .next hrest hp⟩

lemma Reached.cons {o p : Nat} (ho : o < limit) (h : Reached limit len (o + len o) p) :
    Reached limit len o p := by
  induction h with
  | start => exact .next .start ho
  | next _ hp ih => exact .next ih hp

lemma Reached.stride {d o : Nat} {k : Nat} (h : o + d * k < limit) :
    Reached limit (fun _ => d) o (o + d * k) := by
  induction k with
  | zero => exact .start
  | succ k ih =>
    rw [Nat.mul_succ, ← Nat.add_assoc] at h ⊢
    have hlt := Nat.lt_of_le_of_lt (Nat.le_add_right (o + d * k) d) h
    exact .next (ih hlt) hlt

lemma Reached.exists_stride {d o p : Nat} (h : Reached limit (fun _ => d) o p) :
    ∃ k, p = o + d * k := by
  induction h with
  | start => exact ⟨0, rfl⟩
  | next _ _ ih =>
    rcases ih with ⟨k, rfl⟩
    exact ⟨k + 1, Nat.add_assoc o (d * k) d⟩

/-- After a loop that has ended, every record it came to fits. -/
lemma reached_of_scan (hvisit : ∀ o s s' n, visit o s = .ok (s', n) → fits o ∧ n = len o) :
    ∀ {fuel o : Nat} {s t : σ}, scan limit visit fuel o s = .ok t →
      ∀ p, Reached limit len o p → p < limit → fits p ∧ len p ≠ 0 := by
  intro fuel
  induction fuel with
  | zero =>
    intro o s t h
    cases h
  | succ fuel ih =>
    intro o s t h p hp hlimit
    by_cases ho : o < limit
    · cases hv : visit o s with
      | error f => simp [scan, ho, hv] at h
      | ok r =>
        rcases r with ⟨s', n⟩
        rcases hvisit o s s' n hv with ⟨hfit, rfl⟩
        have hrest : scan limit visit fuel (o + len o) s' = .ok t := by simpa [scan, ho, hv] using h
        rcases hp.head with rfl | ⟨_, hp⟩
        · refine ⟨hfit, fun hzero => ?_⟩
          -- at length 0 the rest of the loop starts at the same record
          exact (ih hrest p (hzero.symm ▸ Reached.start) hlimit).2 hzero
        · exact ih hrest p hp hlimit
    · rcases hp.head with rfl | ⟨hlt, _⟩
      · exact absurd hlimit ho
      · exact absurd hlt ho

/-- A scan ends when every offset it reaches holds a nonempty record that fits. -/
lemma scan_of_reached (hvisit : ∀ o s, o < limit → fits o → ∃ s', visit o s = .ok (s', len o)) :
    ∀ {fuel o : Nat} {s : σ}, limit - o < fuel →
      (∀ p, Reached limit len o p → p < limit → fits p ∧ len p ≠ 0) →
      ∃ t, scan limit visit fuel o s = .ok t := by
  intro fuel
  induction fuel with
  | zero =>
    intro o s hfuel
    cases hfuel
  | succ fuel ih =>
    intro o s hfuel h
    by_cases ho : o < limit
    · rcases h o .start ho with ⟨hfit, hlen⟩
      rcases hvisit o s ho hfit with ⟨s', hv⟩
      have hless : limit - (o + len o) < fuel := by omega
      rcases ih (s := s') hless fun p hp => h p (hp.cons ho) with ⟨t, ht⟩
      exact ⟨t, by simpa [scan, ho, hv] using ht⟩
    · exact ⟨s, by simp [scan, ho]⟩

lemma scan_stuck {o : Nat} {s : σ} (ho : o < limit) (hvisit : visit o s = .ok (s, 0)) :
    ∀ fuel, scan limit visit fuel o s = .error .outOfFuel := by
  intro fuel
  induction fuel with
  | zero => rfl
  | succ fuel ih => simpa [scan, ho, hvisit] using ih

variable {β : Type}

/-- Over the encoding of a list the loop goes through the list. -/
lemma scan_encoded {bytes : Bytes} {encode : β → Bytes} {apply : σ → β → σ}
    (hvisit : ∀ before b after s, bytes = before ++ (encode b ++ after) →
      visit before.length s = .ok (apply s b, (encode b).length))
    (hpos : ∀ b, encode b ≠ []) (bs : List β) (before : Bytes) (fuel : Nat) (s : σ)
    (hbytes : bytes = before ++ bs.flatMap encode) (hfuel : bs.length < fuel) :
    scan bytes.length visit fuel before.length s = .ok (bs.foldl apply s) := by
  induction bs generalizing before fuel s with
  | nil =>
    cases fuel with
    | zero => cases hfuel
    | succ fuel => simp [scan, hbytes]
  | cons b bs ih =>
    cases fuel with
    | zero => cases hfuel
    | succ fuel =>
      have hsplit : bytes = before ++ (encode b ++ bs.flatMap encode) := by simpa using hbytes
      have hless : before.length < bytes.length := by
        have hb := length_pos_iff.2 (hpos b)
        rw [hsplit, length_append, length_append]
        omega
      have hrest := ih (before ++ encode b) fuel (apply s b) (by simpa using hsplit)
        (Nat.lt_of_succ_lt_succ hfuel)
      simpa [scan, hless, hvisit before b _ s hsplit] using hrest

end Loop

end SigmaOS.Lib.Records
