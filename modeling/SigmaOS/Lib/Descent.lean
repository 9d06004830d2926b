import Mathlib.Data.Fintype.Card

/-!
# Descent — recursive walks over places

A place holds a list of nodes, and a node may lead down to another place.  `walkDown` lists the nodes
below a place the way a recursive walk without a memory of its own meets them: for each node first
what is below it, then the node.  This file has:

* `mem_walkDown` — what is listed are the nodes `Under` the place;
* `exists_walkDown_iff` — the walk comes to an end exactly when no cycle of places can be reached
  (over finitely many places);
* `Treelike` — every place is led to by one node at most, and the start by none.  Then the walk comes
  to an end (`Treelike.exists_walkDown`) and lists no node twice (`Treelike.walkDown_nodup`).
-/

namespace SigmaOS.Lib.Descent

open Relation List

universe u v

variable {B : Type u} {N : Type v}

/-! ## The walk -/

/-- The lists for some nodes, one after the other, or `none` when one of them is missing. -/
def collect (list : N → Option (List N)) : List N → Option (List N)
  | [] => some []
  | n :: ns =>
    match list n with
    | none => none
    | some l => (collect list ns).map (l ++ ·)

/-- The nodes below `b`, with `fuel` as a bound of the depth. -/
def walkDown (nodes : B → List N) (down : N → Option B) : Nat → B → Option (List N)
  | 0, _ => none
  | fuel + 1, b =>
    collect
      (fun n =>
        match down n with
        | none => some [n]
        | some c => (walkDown nodes down fuel c).map (· ++ [n]))
      (nodes b)

/-- The nodes of a place and of the places it leads to. -/
inductive Under (nodes : B → List N) (down : N → Option B) : B → N → Prop where
  | here {b : B} {n : N} : n ∈ nodes b → Under nodes down b n
  | deeper {b c : B} {m n : N} :
      m ∈ nodes b → down m = some c → Under nodes down c n → Under nodes down b n

def Leads (nodes : B → List N) (down : N → Option B) (b c : B) : Prop :=
  ∃ n ∈ nodes b, down n = some c

section Collect

variable {list list' : N → Option (List N)} {ns : List N} {l : List N}

lemma collect_cons {n : N} {l' : List N} (hn : list n = some l)
    (hns : collect list ns = some l') : collect list (n :: ns) = some (l ++ l') := by
  simp [collect, hn, hns]

lemma collect_cons_some {n : N} (h : collect list (n :: ns) = some l) :
    ∃ l₁ l₂, list n = some l₁ ∧ collect list ns = some l₂ ∧ l = l₁ ++ l₂ := by
  unfold collect at h
  split at h
  · cases h
  next l₁ hn =>
  rcases Option.map_eq_some_iff.1 h with ⟨l₂, hns, rfl⟩
  exact ⟨l₁, l₂, hn, hns, rfl⟩

lemma exists_collect (h : ∀ n ∈ ns, ∃ l, list n = some l) : ∃ l, collect list ns = some l := by
  induction ns with
  | nil => exact ⟨[], rfl⟩
  | cons n ns ih =>
    rcases h n mem_cons_self with ⟨l₁, h₁⟩
    rcases ih fun m hm => h m (mem_cons_of_mem n hm) with ⟨l₂, h₂⟩
    exact ⟨l₁ ++ l₂, collect_cons h₁ h₂⟩

lemma collect_parts (hl : collect list ns = some l) : ∀ n ∈ ns, ∃ part, list n = some part := by
  induction ns generalizing l with
  | nil => exact nofun
  | cons m ns ih =>
    rcases collect_cons_some hl with ⟨l₁, l₂, h₁, h₂, _⟩
    intro n hn
    rcases mem_cons.1 hn with rfl | hin
    · exact ⟨l₁, h₁⟩
    · exact ih h₂ n hin

lemma collect_mono (h : ∀ n l, list n = some l → list' n = some l)
    (hl : collect list ns = some l) : collect list' ns = some l := by
  induction ns generalizing l with
  | nil => exact hl
  | cons n ns ih =>
    rcases collect_cons_some hl with ⟨l₁, l₂, h₁, h₂, rfl⟩
    exact collect_cons (h n l₁ h₁) (ih h₂)

lemma mem_collect {x : N} (hl : collect list ns = some l) :
    x ∈ l ↔ ∃ n ∈ ns, ∃ part, list n = some part ∧ x ∈ part := by
  induction ns generalizing l with
  | nil =>
    have hnil : l = [] := by simpa [collect] using hl.symm
    simp [hnil]
  | cons n ns ih =>
    rcases collect_cons_some hl with ⟨l₁, l₂, h₁, h₂, rfl⟩
    simp [mem_append, ih h₂, h₁]

lemma collect_nodup (hns : ns.Nodup) (hpart : ∀ n ∈ ns, ∀ part, list n = some part → part.Nodup)
    (hapart : ∀ n ∈ ns, ∀ m ∈ ns, n ≠ m → ∀ p q, list n = some p → list m = some q → ∀ x ∈ p, x ∉ q)
    (hl : collect list ns = some l) : l.Nodup := by
  induction ns generalizing l with
  | nil =>
    have hnil : l = [] := by simpa [collect] using hl.symm
    rw [hnil]
    exact nodup_nil
  | cons n ns ih =>
    rcases collect_cons_some hl with ⟨l₁, l₂, h₁, h₂, rfl⟩
    rcases nodup_cons.1 hns with ⟨hn, hrest⟩
    refine nodup_append.2 ⟨hpart n mem_cons_self l₁ h₁, ?_, ?_⟩
    · exact ih hrest (fun m hm => hpart m (mem_cons_of_mem n hm))
        (fun m hm k hk => hapart m (mem_cons_of_mem n hm) k (mem_cons_of_mem n hk)) h₂
    · rintro x hx y hy rfl
      rcases (mem_collect h₂).1 hy with ⟨m, hm, q, hq, hxq⟩
      have hnm : n ≠ m := fun h => hn (h ▸ hm)
      exact hapart n mem_cons_self m (mem_cons_of_mem n hm) hnm l₁ q h₁ hq x hx hxq

end Collect

section Visit

variable {nodes : B → List N} {down : N → Option B} {fuel fuel' : Nat} {b c : B} {n x : N}
  {l : List N}

def walkNode (nodes : B → List N) (down : N → Option B) (fuel : Nat) (n : N) : Option (List N) :=
  match down n with
  | none => some [n]
  | some c => (walkDown nodes down fuel c).map (· ++ [n])

lemma walkDown_succ :
    walkDown nodes down (fuel + 1) b = collect (walkNode nodes down fuel) (nodes b) :=
  rfl

lemma walkNode_leaf (h : down n = none) : walkNode nodes down fuel n = some [n] := by
  simp [walkNode, h]

lemma walkNode_some (h : walkNode nodes down fuel n = some l) :
    (down n = none ∧ l = [n]) ∨
      ∃ c l', down n = some c ∧ walkDown nodes down fuel c = some l' ∧ l = l' ++ [n] := by
  unfold walkNode at h
  split at h
  · next hd =>
    cases h
    exact .inl ⟨hd, rfl⟩
  next c hd =>
  rcases Option.map_eq_some_iff.1 h with ⟨l', hv, rfl⟩
  exact .inr ⟨c, l', hd, hv, rfl⟩

lemma self_mem_walkNode (h : walkNode nodes down fuel n = some l) : n ∈ l := by
  rcases walkNode_some h with ⟨_, rfl⟩ | ⟨c, l', _, _, rfl⟩
  · exact mem_singleton.2 rfl
  · exact mem_append_right _ (mem_singleton.2 rfl)

/-- More fuel does not change a walk that returned. -/
lemma walkDown_mono (hle : fuel ≤ fuel') (h : walkDown nodes down fuel b = some l) :
    walkDown nodes down fuel' b = some l := by
  induction fuel generalizing fuel' b l with
  | zero => simp [walkDown] at h
  | succ fuel ih =>
    cases fuel' with
    | zero => exact absurd hle (Nat.not_succ_le_zero fuel)
    | succ fuel' =>
      rw [walkDown_succ] at h ⊢
      refine collect_mono ?_ h
      intro n part hpart
      rcases walkNode_some hpart with ⟨hd, rfl⟩ | ⟨c, l', hd, hv, rfl⟩
      · exact walkNode_leaf hd
      · simp [walkNode, hd, ih (Nat.le_of_succ_le_succ hle) hv]

/-- The walk finds exactly what is under its start. -/
lemma mem_walkDown (h : walkDown nodes down fuel b = some l) : x ∈ l ↔ Under nodes down b x := by
  induction fuel generalizing b l with
  | zero => simp [walkDown] at h
  | succ fuel ih =>
    rw [mem_collect h]
    constructor
    · rintro ⟨n, hn, part, hpart, hx⟩
      rcases walkNode_some hpart with ⟨_, rfl⟩ | ⟨c, l', hd, hv, rfl⟩
      · rw [mem_singleton.1 hx]
        exact Under.here hn
      · rcases mem_append.1 hx with hx | hx
        · exact Under.deeper hn hd ((ih hv).1 hx)
        · rw [mem_singleton.1 hx]
          exact Under.here hn
    · have hall := collect_parts h
      intro hx
      cases hx with
      | here hn =>
        rcases hall x hn with ⟨part, hpart⟩
        exact ⟨x, hn, part, hpart, self_mem_walkNode hpart⟩
      | @deeper _ c m _ hm hd hunder =>
        rcases hall m hm with ⟨part, hpart⟩
        refine ⟨m, hm, part, hpart, ?_⟩
        rcases walkNode_some hpart with ⟨hnone, _⟩ | ⟨c', l', hd', hv, rfl⟩
        · rw [hd] at hnone
          exact absurd hnone (by simp)
        · have hcc : c = c' := Option.some.inj (hd.symm.trans hd')
          exact mem_append_left _ ((ih hv).2 (hcc ▸ hunder))

/-! ## When the walk comes to an end -/

/-- A walk that returns shows its start accessible. -/
lemma acc_of_walkDown (h : walkDown nodes down fuel b = some l) :
    Acc (fun c b => Leads nodes down b c) b := by
  induction fuel generalizing b l with
  | zero => simp [walkDown] at h
  | succ fuel ih =>
    refine Acc.intro b ?_
    rintro c ⟨n, hn, hd⟩
    rcases collect_parts h n hn with ⟨part, hpart⟩
    rcases walkNode_some hpart with ⟨hnone, _⟩ | ⟨c', l', hd', hv, _⟩
    · rw [hd] at hnone
      exact absurd hnone (by simp)
    · have hcc : c = c' := Option.some.inj (hd.symm.trans hd')
      exact hcc ▸ ih hv

/-- One bound for finitely many walks. -/
lemma exists_fuel {ns : List N}
    (h : ∀ n ∈ ns, ∃ fuel part, walkNode nodes down fuel n = some part) :
    ∃ fuel, ∀ n ∈ ns, ∃ part, walkNode nodes down fuel n = some part := by
  have hmono : ∀ {n fuel fuel' part}, fuel ≤ fuel' → walkNode nodes down fuel n = some part →
      walkNode nodes down fuel' n = some part := by
    intro n fuel fuel' part hle hpart
    rcases walkNode_some hpart with ⟨hd, rfl⟩ | ⟨c, l', hd, hv, rfl⟩
    · exact walkNode_leaf hd
    · simp [walkNode, hd, walkDown_mono hle hv]
  induction ns with
  | nil => exact ⟨0, nofun⟩
  | cons m ns ih =>
    rcases h m mem_cons_self with ⟨k₁, part, hpart⟩
    rcases ih fun n hn => h n (mem_cons_of_mem m hn) with ⟨k₂, hrest⟩
    refine ⟨max k₁ k₂, ?_⟩
    intro n hn
    rcases mem_cons.1 hn with rfl | hin
    · exact ⟨part, hmono (Nat.le_max_left k₁ k₂) hpart⟩
    · rcases hrest n hin with ⟨part', hpart'⟩
      exact ⟨part', hmono (Nat.le_max_right k₁ k₂) hpart'⟩

/-- From an accessible start some fuel is enough. -/
lemma walkDown_of_acc (h : Acc (fun c b => Leads nodes down b c) b) :
    ∃ fuel l, walkDown nodes down fuel b = some l := by
  induction h with
  | intro b _ ih =>
    have hnodes : ∀ n ∈ nodes b, ∃ fuel part, walkNode nodes down fuel n = some part := by
      intro n hn
      cases hd : down n with
      | none => exact ⟨0, [n], walkNode_leaf hd⟩
      | some c =>
        rcases ih c ⟨n, hn, hd⟩ with ⟨fuel, l, hv⟩
        exact ⟨fuel, l ++ [n], by simp [walkNode, hd, hv]⟩
    rcases exists_fuel hnodes with ⟨fuel, hall⟩
    rcases exists_collect hall with ⟨l, hl⟩
    exact ⟨fuel + 1, l, hl⟩

def Acyclic (nodes : B → List N) (down : N → Option B) (b : B) : Prop :=
  ∀ c, ReflTransGen (Leads nodes down) b c → ¬ TransGen (Leads nodes down) c c

lemma acyclic_of_acc (h : Acc (fun c b => Leads nodes down b c) b) : Acyclic nodes down b := by
  induction h with
  | intro b _ ih =>
    -- a cycle through `b` itself goes on through a place it leads to
    have hother : ∀ c d, Leads nodes down b c → ReflTransGen (Leads nodes down) c d →
        ¬ TransGen (Leads nodes down) d d := fun c d hbc hcd => ih c hbc d hcd
    intro d hbd hcycle
    rcases ReflTransGen.cases_head hbd with rfl | ⟨c, hbc, hcd⟩
    · rcases TransGen.head'_iff.1 hcycle with ⟨c, hbc, hcb⟩
      exact hother c b hbc hcb hcycle
    · exact hother c d hbc hcd hcycle

/-- On finitely many nodes acyclic is accessible. -/
lemma acc_of_acyclic [Finite B] (h : Acyclic nodes down b) :
    Acc (fun c b => Leads nodes down b c) b := by
  -- strictly below, from places that are reached: a strict order of finitely many places
  let lower : B → B → Prop := fun y x =>
    ReflTransGen (Leads nodes down) b x ∧ TransGen (Leads nodes down) x y
  have htrans : IsTrans B lower := ⟨fun z y x hzy hyx => ⟨hyx.1, hyx.2.trans hzy.2⟩⟩
  have hirrefl : Std.Irrefl lower := ⟨fun x hx => h x hx.1 hx.2⟩
  have hwf : WellFounded lower := Finite.wellFounded_of_trans_of_irrefl lower
  have hall : ∀ x, ReflTransGen (Leads nodes down) b x →
      Acc (fun c b => Leads nodes down b c) x := by
    intro x
    induction x using hwf.induction with
    | _ x ih =>
      intro hx
      exact Acc.intro x fun y hy => ih y ⟨hx, TransGen.single hy⟩ (hx.tail hy)
  exact hall b ReflTransGen.refl

lemma exists_walkDown_iff [Finite B] :
    (∃ fuel l, walkDown nodes down fuel b = some l) ↔ Acyclic nodes down b := by
  constructor
  · rintro ⟨fuel, l, h⟩
    exact acyclic_of_acc (acc_of_walkDown h)
  · intro h
    exact walkDown_of_acc (acc_of_acyclic h)

/-- What lies under a node is what some node reached from it holds. -/
lemma under_iff :
    Under nodes down b x ↔ ∃ c, ReflTransGen (Leads nodes down) b c ∧ x ∈ nodes c := by
  constructor
  · intro h
    induction h with
    | here hn => exact ⟨_, ReflTransGen.refl, hn⟩
    | deeper hm hd _ ih =>
      rcases ih with ⟨c, hc, hx⟩
      exact ⟨c, ReflTransGen.head ⟨_, hm, hd⟩ hc, hx⟩
  · rintro ⟨c, hc, hx⟩
    induction hc using ReflTransGen.head_induction_on with
    | refl => exact Under.here hx
    | head hbc _ ih =>
      rcases hbc with ⟨m, hm, hd⟩
      exact Under.deeper hm hd ih

end Visit

/-! ## Trees -/

/-- From `start` on, every place is led to by one node at most, and `start` by none; a node is in one
place, once. -/
structure Treelike (nodes : B → List N) (down : N → Option B) (start : B) : Prop where
  nodup : ∀ b, (nodes b).Nodup
  apart : ∀ b c n, n ∈ nodes b → n ∈ nodes c → b = c
  once : ∀ m n c, Under nodes down start m → Under nodes down start n → down m = some c →
    down n = some c → m = n
  above : ∀ m, Under nodes down start m → down m ≠ some start

namespace Treelike

variable {nodes : B → List N} {down : N → Option B} {start b c d : B} {fuel : Nat} {m n x : N}
  {l : List N}

section

variable (h : Treelike nodes down start)
include h

lemma leads_unique (hb : ReflTransGen (Leads nodes down) start b)
    (hc : ReflTransGen (Leads nodes down) start c) (hbd : Leads nodes down b d)
    (hcd : Leads nodes down c d) : b = c := by
  rcases hbd with ⟨m, hm, hmd⟩
  rcases hcd with ⟨n, hn, hnd⟩
  have hmn := h.once m n d (under_iff.2 ⟨b, hb, hm⟩) (under_iff.2 ⟨c, hc, hn⟩) hmd hnd
  exact h.apart b c m hm (hmn ▸ hn)

lemma acyclic : Acyclic nodes down start := by
  intro c hc
  induction hc with
  | refl =>
    intro hcycle
    rcases TransGen.tail'_iff.1 hcycle with ⟨b, hb, m, hm, hd⟩
    exact h.above m (under_iff.2 ⟨b, hb, hm⟩) hd
  | tail hb hbc ih =>
    intro hcycle
    rcases TransGen.tail'_iff.1 hcycle with ⟨q, hcq, hqc⟩
    have hq := (hb.tail hbc).trans hcq
    have hqb := h.leads_unique hq hb hqc hbc
    exact ih (TransGen.head' hbc (hqb ▸ hcq))

lemma exists_walkDown [Finite B] : ∃ fuel l, walkDown nodes down fuel start = some l :=
  exists_walkDown_iff.2 h.acyclic

lemma reach_total (hb : ReflTransGen (Leads nodes down) start b)
    (hc : ReflTransGen (Leads nodes down) start c) (hbd : ReflTransGen (Leads nodes down) b d)
    (hcd : ReflTransGen (Leads nodes down) c d) :
    ReflTransGen (Leads nodes down) b c ∨ ReflTransGen (Leads nodes down) c b := by
  induction hbd with
  | refl => exact .inr hcd
  | @tail e f hbe hef ih =>
    rcases ReflTransGen.cases_tail hcd with rfl | ⟨g, hcg, hgf⟩
    · exact .inl (hbe.tail hef)
    · have heg := h.leads_unique (hb.trans hbe) (hc.trans hcg) hef hgf
      exact ih (heg ▸ hcg)

lemma not_under_below (hb : ReflTransGen (Leads nodes down) start b) (hbc : Leads nodes down b c)
    (hx : x ∈ nodes b) : ¬ Under nodes down c x := by
  intro hunder
  rcases under_iff.1 hunder with ⟨d, hcd, hxd⟩
  rw [← h.apart b d x hx hxd] at hcd
  exact h.acyclic b hb (TransGen.head' hbc hcd)

/-- Nothing is under two nodes of one level. -/
lemma under_apart (hb : ReflTransGen (Leads nodes down) start b) (hm : m ∈ nodes b)
    (hn : n ∈ nodes b) (hmn : m ≠ n) (hmc : down m = some c) (hnd : down n = some d)
    (hx : Under nodes down c x) : ¬ Under nodes down d x := by
  intro hx'
  have hbc : Leads nodes down b c := ⟨m, hm, hmc⟩
  have hbd : Leads nodes down b d := ⟨n, hn, hnd⟩
  -- neither of the two places is above the other
  have hnot : ∀ {c d m n}, m ∈ nodes b → n ∈ nodes b → m ≠ n → down m = some c → down n = some d →
      ¬ ReflTransGen (Leads nodes down) c d := by
    intro c d m n hm hn hmn hmc hnd hcd
    have hbc : Leads nodes down b c := ⟨m, hm, hmc⟩
    rcases ReflTransGen.cases_tail hcd with rfl | ⟨q, hcq, hqd⟩
    · exact hmn (h.once m n d (under_iff.2 ⟨b, hb, hm⟩) (under_iff.2 ⟨b, hb, hn⟩) hmc hnd)
    · have hqb := h.leads_unique ((hb.tail hbc).trans hcq) hb hqd ⟨n, hn, hnd⟩
      exact h.acyclic b hb (TransGen.head' hbc (hqb ▸ hcq))
  rcases under_iff.1 hx with ⟨p, hcp, hxp⟩
  rcases under_iff.1 hx' with ⟨q, hdq, hxq⟩
  rw [← h.apart p q x hxp hxq] at hdq
  rcases h.reach_total (hb.tail hbc) (hb.tail hbd) hcp hdq with hcd | hdc
  · exact hnot hm hn hmn hmc hnd hcd
  · exact hnot hn hm hmn.symm hnd hmc hdc

/-- In a tree the walk finds nothing twice. -/
lemma walkDown_nodup (hb : ReflTransGen (Leads nodes down) start b)
    (hl : walkDown nodes down fuel b = some l) : l.Nodup := by
  induction fuel generalizing b l with
  | zero => simp [walkDown] at hl
  | succ fuel ih =>
    refine collect_nodup (h.nodup b) ?_ ?_ hl
    · intro n hn part hpart
      rcases walkNode_some hpart with ⟨_, rfl⟩ | ⟨c, l', hd, hv, rfl⟩
      · exact nodup_singleton n
      · have hbc : Leads nodes down b c := ⟨n, hn, hd⟩
        refine nodup_append.2 ⟨ih (hb.tail hbc) hv, nodup_singleton n, ?_⟩
        intro x hx y hy hxy
        rw [mem_singleton.1 hy] at hxy
        rw [hxy] at hx
        exact h.not_under_below hb hbc hn ((mem_walkDown hv).1 hx)
    · intro m hm n hn hmn p q hp hq x hxp hxq
      -- what is listed for a node is the node or under a place it leads to
      have hlisted : ∀ k part, walkNode nodes down fuel k = some part → x ∈ part →
          x = k ∨ ∃ c, down k = some c ∧ Under nodes down c x := by
        intro k part hpart hx
        rcases walkNode_some hpart with ⟨_, rfl⟩ | ⟨c, l', hd, hv, rfl⟩
        · exact .inl (mem_singleton.1 hx)
        · rcases mem_append.1 hx with hx | hx
          · exact .inr ⟨c, hd, (mem_walkDown hv).1 hx⟩
          · exact .inl (mem_singleton.1 hx)
      rcases hlisted m p hp hxp with rfl | ⟨c, hmc, hxc⟩
      · rcases hlisted n q hq hxq with hxn | ⟨d, hnd, hxd⟩
        · exact hmn hxn
        · exact h.not_under_below hb ⟨n, hn, hnd⟩ hm hxd
      · rcases hlisted n q hq hxq with rfl | ⟨d, hnd, hxd⟩
        · exact h.not_under_below hb ⟨m, hm, hmc⟩ hn hxc
        · exact h.under_apart hb hm hn hmn hmc hnd hxc hxd

end

end Treelike

end SigmaOS.Lib.Descent
