import Mathlib.Data.Option.Basic

/-!
# Run — finite runs of a partial step function

A system is given by a step function `step : σ → α → Option σ`; the answer `none` is a panic (or
any other dead end), and a run stops there.

* `Run step ok s t` — `t` is reached from `s` by finitely many steps, each of which meets the
  guard `ok` in the state before it;
* `exec step s as` — the state after the labels `as`, computed;
* the invariant rule `Run.invariant` and the bridges `exec_run` and `exec_guarded` from
  computed to guarded runs;
* `loop body as s` — a loop over `as` that its body may leave early;
* `Chain R as s t` — one step of the relation `R` for each label of `as` — and its rule
  `Chain.collects`; computed runs, folds and loops that end are chains (`exec_chain`,
  `foldl_chain`, `loop_chain`).
-/

namespace SigmaOS.Lib

open List

universe u v

variable {σ : Type u} {α : Type v}

inductive Run (step : σ → α → Option σ) (ok : σ → α → Prop) : σ → σ → Prop where
  | refl (s : σ) : Run step ok s s
  | tail {s t u : σ} {a : α} :
      Run step ok s t → ok t a → step t a = some u → Run step ok s u

namespace Run

variable {step : σ → α → Option σ} {ok ok' : σ → α → Prop} {s t u : σ}

/-- What holds at the start and is kept by every guarded step holds in every state reached. -/
lemma invariant {I : σ → Prop} (hrun : Run step ok s t) (hstart : I s)
    (hstep : ∀ t a u, I t → ok t a → step t a = some u → I u) : I t := by
  induction hrun with
  | refl => exact hstart
  | tail _ hok hs ih => exact hstep _ _ _ ih hok hs

lemma trans (h₁ : Run step ok s t) (h₂ : Run step ok t u) : Run step ok s u := by
  induction h₂ with
  | refl => exact h₁
  | tail _ hok hs ih => exact Run.tail ih hok hs

lemma single {a : α} (hok : ok s a) (hs : step s a = some t) : Run step ok s t :=
  Run.tail (Run.refl s) hok hs

end Run

/-! ## Computed runs -/

/-- The state after the labels `as`, or `none` when one of the steps has no answer. -/
def exec (step : σ → α → Option σ) : σ → List α → Option σ
  | s, [] => some s
  | s, a :: as =>
    match step s a with
    | none => none
    | some t => exec step t as

variable {step : σ → α → Option σ} {as : List α} {s : σ} {ok : σ → α → Prop}

lemma exec_cons_some {a : α} {t : σ} :
    exec step s (a :: as) = some t ↔ ∃ u, step s a = some u ∧ exec step u as = some t := by
  cases hs : step s a with
  | none => simp [exec, hs]
  | some u => simp [exec, hs]

/-- A computed run over labels that the guard always admits is a guarded run. -/
lemma exec_run {as : List α} {s t : σ} (h : exec step s as = some t)
    (hok : ∀ a ∈ as, ∀ u, ok u a) : Run step ok s t := by
  induction as generalizing s t with
  | nil =>
    have hst : s = t := by simpa [exec] using h
    exact hst ▸ Run.refl s
  | cons a as ih =>
    rcases exec_cons_some.1 h with ⟨u, hs, hrest⟩
    exact Run.trans (Run.single (hok a mem_cons_self s) hs)
      (ih hrest fun b hb => hok b (mem_cons_of_mem a hb))

/-- A computed run whose steps were checked against the guard is a guarded run. -/
lemma exec_guarded [∀ s a, Decidable (ok s a)] {as : List α} {s t : σ}
    (h : exec (fun s a => if ok s a then step s a else none) s as = some t) : Run step ok s t := by
  induction as generalizing s t with
  | nil =>
    have hst : s = t := by simpa [exec] using h
    exact hst ▸ Run.refl s
  | cons a as ih =>
    rcases exec_cons_some.1 h with ⟨u, hs, hrest⟩
    by_cases hok : ok s a
    · rw [if_pos hok] at hs
      exact Run.trans (Run.single hok hs) (ih hrest)
    · rw [if_neg hok] at hs
      cases hs

lemma exec_append {bs : List α} :
    exec step s (as ++ bs) = (exec step s as).bind (exec step · bs) := by
  induction as generalizing s with
  | nil => rfl
  | cons a as ih =>
    cases hs : step s a with
    | none => simp [exec, hs]
    | some t => simpa [exec, hs] using ih

lemma exec_flatMap {β : Type v} {step : σ → β → Option σ} {f : α → List β} :
    exec (fun s a => exec step s (f a)) s as = exec step s (as.flatMap f) := by
  induction as generalizing s with
  | nil => rfl
  | cons a as ih =>
    rw [flatMap_cons, exec_append]
    cases hs : exec step s (f a) with
    | none => simp [exec, hs]
    | some t => simpa [exec, hs] using ih

lemma exec_total (h : ∀ a ∈ as, ∀ s, ∃ t, step s a = some t) :
    ∀ s, ∃ t, exec step s as = some t := by
  induction as with
  | nil => exact fun s => ⟨s, rfl⟩
  | cons a as ih =>
    intro s
    rcases h a mem_cons_self s with ⟨t, ht⟩
    rcases ih (fun b hb => h b (mem_cons_of_mem a hb)) t with ⟨u, hu⟩
    exact ⟨u, exec_cons_some.2 ⟨t, ht, hu⟩⟩

lemma exec_mono {step' : σ → α → Option σ} {t : σ}
    (h : ∀ s a t, step s a = some t → step' s a = some t) (hs : exec step s as = some t) :
    exec step' s as = some t := by
  induction as generalizing s with
  | nil => exact hs
  | cons a as ih =>
    rcases exec_cons_some.1 hs with ⟨u, ha, hrest⟩
    exact exec_cons_some.2 ⟨u, h s a u ha, ih hrest⟩

/-- A loop over a list whose body may leave it: `true` goes on with the next element, `false` leaves
the loop, and `none` is a dead end. -/
def loop (body : α → σ → Option (Bool × σ)) : List α → σ → Option (Bool × σ)
  | [], s => some (true, s)
  | a :: as, s =>
    match body a s with
    | none => none
    | some (false, t) => some (false, t)
    | some (true, t) => loop body as t

/-- `t` is reached from `s` by one step of `R` for each label of a list: what a loop does that goes
through the list. -/
inductive Chain (R : α → σ → σ → Prop) : List α → σ → σ → Prop where
  | nil (s : σ) : Chain R [] s s
  | cons {a : α} {as : List α} {s t u : σ} : R a s t → Chain R as t u → Chain R (a :: as) s u

namespace Chain

variable {R : α → σ → σ → Prop} {as : List α} {s t : σ} {I : σ → Prop} {Q : α → σ → Prop}

/-- What every step establishes for its own label, and keeps for all others, holds for all labels of
the list in the end. -/
lemma collects (h : Chain R as s t)
    (hstep : ∀ a ∈ as, ∀ s t, I s → R a s t → I t ∧ Q a t ∧ ∀ b, Q b s → Q b t) (hs : I s) :
    I t ∧ (∀ a ∈ as, Q a t) ∧ ∀ b, Q b s → Q b t := by
  induction h with
  | nil s => exact ⟨hs, nofun, fun _ hb => hb⟩
  | cons hR _ ih =>
    rcases hstep _ mem_cons_self _ _ hs hR with ⟨hI, hown, hkeep⟩
    rcases ih (fun b hb => hstep b (mem_cons_of_mem _ hb)) hI with ⟨hIt, hall, hkeep'⟩
    refine ⟨hIt, ?_, fun b hb => hkeep' b (hkeep b hb)⟩
    intro b hb
    rcases mem_cons.1 hb with rfl | hin
    · exact hkeep' b hown
    · exact hall b hin

end Chain

variable {t s : σ} {as : List α}

lemma exec_chain {step : σ → α → Option σ} (h : exec step s as = some t) :
    Chain (fun a s t => step s a = some t) as s t := by
  induction as generalizing s with
  | nil =>
    have hst : s = t := by simpa [exec] using h
    exact hst ▸ Chain.nil s
  | cons a as ih =>
    rcases exec_cons_some.1 h with ⟨u, hs, hrest⟩
    exact Chain.cons hs (ih hrest)

lemma foldl_chain (f : σ → α → σ) (as : List α) (s : σ) :
    Chain (fun a s t => f s a = t) as s (as.foldl f s) := by
  induction as generalizing s with
  | nil => exact Chain.nil s
  | cons a as ih => exact Chain.cons rfl (ih (f s a))

lemma loop_chain {body : α → σ → Option (Bool × σ)} (h : loop body as s = some (true, t)) :
    Chain (fun a s t => body a s = some (true, t)) as s t := by
  induction as generalizing s with
  | nil =>
    cases h
    exact Chain.nil _
  | cons a as ih =>
    unfold loop at h
    split at h
    · cases h
    · cases h
    · next hs => exact Chain.cons hs (ih h)

end SigmaOS.Lib
