-- Runs of a step function. A system says where it starts and what each
-- label does; a label that is not enabled gives `none`. The rules here turn
-- facts about one step into facts about every run.
import Mathlib.Logic.Function.Basic
import Mathlib.Tactic.Common

namespace Runs

variable {σ ι : Type}

/-- The states a run can start in, and the step of each label. -/
structure System (σ ι : Type) where
  start : σ → Prop
  step : σ → ι → Option σ

/-- The state after the labels, in order. It is `none` when one of them is
not enabled. -/
def System.run (M : System σ ι) : σ → List ι → Option σ
  | s, [] => some s
  | s, l :: ls => (M.step s l).bind fun s' => M.run s' ls

/-- The same for a run whose steps have to meet `G`. -/
def System.runBy (M : System σ ι) (G : σ → ι → Prop) [∀ s l, Decidable (G s l)] :
    σ → List ι → Option σ
  | s, [] => some s
  | s, l :: ls => if G s l then (M.step s l).bind fun s' => M.runBy G s' ls else none

/-- The states that a run reaches with steps that all meet `G`, a condition
on the state before the step and on its label. -/
inductive System.ReachBy (M : System σ ι) (G : σ → ι → Prop) : σ → Prop
  | start {s : σ} : M.start s → M.ReachBy G s
  | step {s s' : σ} {l : ι} : M.ReachBy G s → G s l → M.step s l = some s' → M.ReachBy G s'

/-- The states that any run reaches. -/
def System.Reach (M : System σ ι) : σ → Prop := M.ReachBy fun _ _ => True

/-- Every step that the labels take from `s` meets `G`. -/
def System.Meets (M : System σ ι) (G : σ → ι → Prop) : σ → List ι → Prop
  | _, [] => True
  | s, l :: ls => G s l ∧ ∀ s', M.step s l = some s' → M.Meets G s' ls

/-- `P` holds in `s` and in every state that the labels pass. -/
def System.Along (M : System σ ι) (P : σ → Prop) : σ → List ι → Prop
  | s, [] => P s
  | s, l :: ls => P s ∧ ∀ s', M.step s l = some s' → M.Along P s' ls

/-- What the steps of the labels cost in all, by `f`. -/
def System.cost (M : System σ ι) (f : σ → ι → Nat) : σ → List ι → Nat
  | _, [] => 0
  | s, l :: ls => f s l + match M.step s l with
    | some s' => M.cost f s' ls
    | none => 0

variable {M : System σ ι} {G G' : σ → ι → Prop} {P : σ → Prop}

theorem System.run_cons (s : σ) (l : ι) (ls : List ι) :
    M.run s (l :: ls) = (M.step s l).bind fun s' => M.run s' ls := rfl

theorem System.run_cons_some {s t : σ} {l : ι} {ls : List ι} (h : M.run s (l :: ls) = some t) :
    ∃ s', M.step s l = some s' ∧ M.run s' ls = some t := by
  rw [System.run_cons] at h
  exact Option.bind_eq_some_iff.mp h

theorem System.run_append {ls ls' : List ι} {s : σ} :
    M.run s (ls ++ ls') = (M.run s ls).bind fun t => M.run t ls' := by
  induction ls generalizing s with
  | nil => rfl
  | cons l ls ih =>
    simp only [List.cons_append, System.run_cons]
    cases M.step s l with
    | none => rfl
    | some s' => exact ih

/-! ## Rules for one invariant -/

/-- What the start gives and every guarded step keeps holds in every state
that the guarded runs reach. -/
theorem System.ReachBy.invariant (h0 : ∀ s, M.start s → P s)
    (hstep : ∀ s l s', P s → G s l → M.step s l = some s' → P s') {s : σ}
    (h : M.ReachBy G s) : P s := by
  induction h with
  | start hs => exact h0 _ hs
  | step _ hg hs ih => exact hstep _ _ _ ih hg hs

/-- The same rule with a fact `Q` that is already known of every state. -/
theorem System.ReachBy.invariant_with {Q : σ → Prop} (hQ : ∀ s, M.ReachBy G s → Q s)
    (h0 : ∀ s, M.start s → P s)
    (hstep : ∀ s l s', Q s → P s → G s l → M.step s l = some s' → P s') {s : σ}
    (h : M.ReachBy G s) : P s := by
  induction h with
  | start hs => exact h0 _ hs
  | step hr hg hs ih => exact hstep _ _ _ (hQ _ hr) ih hg hs

theorem System.ReachBy.mono (hG : ∀ s l, G s l → G' s l) {s : σ} (h : M.ReachBy G s) :
    M.ReachBy G' s := by
  induction h with
  | start hs => exact .start hs
  | step _ hg hs ih => exact .step ih (hG _ _ hg) hs

theorem System.ReachBy.reach {s : σ} (h : M.ReachBy G s) : M.Reach s :=
  h.mono fun _ _ _ => trivial

theorem System.Reach.step {s s' : σ} {l : ι} (h : M.Reach s) (hs : M.step s l = some s') :
    M.Reach s' := System.ReachBy.step h trivial hs

/-- The rule for runs with no guard. -/
theorem System.Reach.invariant (h0 : ∀ s, M.start s → P s)
    (hstep : ∀ s l s', P s → M.step s l = some s' → P s') {s : σ} (h : M.Reach s) : P s :=
  System.ReachBy.invariant h0 (fun s l s' hp _ hs => hstep s l s' hp hs) h

/-! ## Runs given by their labels -/

/-- When a step keeps `P` exactly if it meets `G`, a run passes only through
states with `P` exactly if all its steps meet `G`. -/
theorem System.along_iff_meets
    (hstep : ∀ s l s', P s → M.step s l = some s' → (P s' ↔ G s l)) {ls : List ι} :
    ∀ {s t : σ}, P s → M.run s ls = some t → (M.Along P s ls ↔ M.Meets G s ls) := by
  induction ls with
  | nil =>
    intro s t hp _
    exact ⟨fun _ => trivial, fun _ => hp⟩
  | cons l ls ih =>
    intro s t hp hr
    obtain ⟨s', hs, hr'⟩ := System.run_cons_some hr
    have hfirst : ∀ ls, M.Along P s' ls → P s' := by
      intro ls h
      cases ls with
      | nil => exact h
      | cons _ _ => exact h.1
    constructor
    · rintro ⟨_, ha⟩
      have hp' := hfirst ls (ha s' hs)
      refine ⟨(hstep s l s' hp hs).mp hp', fun s'' hs'' => ?_⟩
      rw [hs] at hs''
      cases hs''
      exact (ih hp' hr').mp (ha s' hs)
    · rintro ⟨hg, hm⟩
      refine ⟨hp, fun s'' hs'' => ?_⟩
      rw [hs] at hs''
      cases hs''
      exact (ih ((hstep s l s' hp hs).mpr hg) hr').mpr (hm s' hs)

/-- A fact `Q` that every step out of a state with `P` keeps comes along with
`P`. -/
theorem System.along_and_iff {Q : σ → Prop}
    (hstep : ∀ s l s', P s → Q s → M.step s l = some s' → Q s') {ls : List ι} :
    ∀ {s : σ}, Q s → (M.Along P s ls ↔ M.Along (fun s => P s ∧ Q s) s ls) := by
  induction ls with
  | nil =>
    intro s hq
    exact ⟨fun hp => ⟨hp, hq⟩, fun h => h.1⟩
  | cons l ls ih =>
    intro s hq
    constructor
    · rintro ⟨hp, ha⟩
      exact ⟨⟨hp, hq⟩, fun s' hs => (ih (hstep s l s' hp hq hs)).mp (ha s' hs)⟩
    · rintro ⟨⟨hp, _⟩, ha⟩
      exact ⟨hp, fun s' hs => (ih (hstep s l s' hp hq hs)).mpr (ha s' hs)⟩

/-- When every step pays its cost out of a budget `b`, the run does. -/
theorem System.run_cost_le {A : ι → Prop} {f : σ → ι → Nat} {b : σ → Nat}
    (hstep : ∀ s l s', P s → A l → M.step s l = some s' → P s' ∧ f s l + b s' ≤ b s)
    {ls : List ι} : ∀ {s t : σ}, P s → (∀ l ∈ ls, A l) → M.run s ls = some t →
      P t ∧ M.cost f s ls + b t ≤ b s := by
  induction ls with
  | nil =>
    intro s t hp _ hr
    cases hr
    exact ⟨hp, by simp [System.cost]⟩
  | cons l ls ih =>
    intro s t hp hA hr
    obtain ⟨s', hs, hr'⟩ := System.run_cons_some hr
    obtain ⟨hp', hle⟩ := hstep s l s' hp (hA l List.mem_cons_self) hs
    obtain ⟨hpt, hle'⟩ := ih hp' (fun l' hl' => hA l' (List.mem_cons_of_mem l hl')) hr'
    refine ⟨hpt, ?_⟩
    simp only [System.cost, hs]
    omega

theorem System.ReachBy.run {ls : List ι} :
    ∀ {s t : σ}, M.ReachBy G s → M.Meets G s ls → M.run s ls = some t → M.ReachBy G t := by
  induction ls with
  | nil =>
    intro s t h _ hr
    cases hr
    exact h
  | cons l ls ih =>
    intro s t h hm hr
    obtain ⟨s', hs, hr'⟩ := System.run_cons_some hr
    exact ih (.step h hm.1 hs) (hm.2 s' hs) hr'

theorem System.meets_true (s : σ) (ls : List ι) : M.Meets (fun _ _ => True) s ls := by
  induction ls generalizing s with
  | nil => exact trivial
  | cons l ls ih => exact ⟨trivial, fun s' _ => ih s'⟩

theorem System.Reach.run {ls : List ι} {s t : σ} (h : M.Reach s) (hr : M.run s ls = some t) :
    M.Reach t := System.ReachBy.run h (System.meets_true s ls) hr

/-- What every step with a label in `A` keeps, every run of such labels keeps, from
wherever it starts. -/
theorem System.run_keeps {A : ι → Prop} (hstep : ∀ s l s', A l → P s → M.step s l = some s' → P s')
    {ls : List ι} {s t : σ} (hA : ∀ l ∈ ls, A l) (h : P s) (hr : M.run s ls = some t) : P t := by
  induction ls generalizing s with
  | nil =>
    cases hr
    exact h
  | cons l ls ih =>
    obtain ⟨s', hs, hr'⟩ := System.run_cons_some hr
    exact ih (fun l' hl' => hA l' (List.mem_cons_of_mem l hl'))
      (hstep s l s' (hA l List.mem_cons_self) h hs) hr'

/-- A guarded run is a run all of whose steps meet the guard. -/
theorem System.runBy_eq_some_iff [∀ s l, Decidable (G s l)] {ls : List ι} :
    ∀ {s t : σ}, M.runBy G s ls = some t ↔ M.Meets G s ls ∧ M.run s ls = some t := by
  induction ls with
  | nil =>
    intro s t
    simp [System.runBy, System.Meets, System.run]
  | cons l ls ih =>
    intro s t
    by_cases hg : G s l
    · cases hs : M.step s l with
      | none => simp [System.runBy, System.run, hs]
      | some s' => simp [System.runBy, System.Meets, System.run, hg, hs, ih]
    · simp [System.runBy, System.Meets, hg]

/-- A guarded run that is written out, and a test on its last state, show that
a state which passes the test is reached. -/
theorem System.ReachBy.of_run [∀ s l, Decidable (G s l)] {s : σ} (ls : List ι) (test : σ → Bool)
    (h : M.ReachBy G s) (ht : (M.runBy G s ls).any test = true) :
    ∃ t, M.ReachBy G t ∧ test t = true := by
  obtain ⟨t, hr, ht⟩ := (Option.any_eq_true _ _).mp ht
  obtain ⟨hm, hr⟩ := System.runBy_eq_some_iff.mp hr
  exact ⟨t, h.run hm hr, ht⟩

/-- The same with no guard. -/
theorem System.Reach.of_run {s : σ} (ls : List ι) (test : σ → Bool) (h : M.start s)
    (ht : (M.run s ls).any test = true) : ∃ t, M.Reach t ∧ test t = true := by
  obtain ⟨t, hr, ht⟩ := (Option.any_eq_true _ _).mp ht
  exact ⟨t, System.Reach.run (.start h) hr, ht⟩

end Runs
