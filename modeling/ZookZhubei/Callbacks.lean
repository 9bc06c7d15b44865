-- The member `_zk_handle` and the callbacks. `zookeeper_init` starts the
-- threads of a handle before it returns, and the member is assigned after
-- that. The callbacks go through the member, not through the handle that
-- raised them. Each statement of a thread is one step. See `zookbag.cpp`,
-- `zookeeper.c` and `mt_adaptor.c`.
import ZookZhubei.Runs
import ZookZhubei.Client

namespace ZookZhubei

open Runs

/-! ## The two threads -/

/-- The statements of the session callbacks. -/
inductive CbStmt
  /-- the entry of `zk_watcher` -/
  | watcher
  /-- `_zk_clientid = zoo_client_id(_zk_handle)` -/
  | clientid
  /-- `_physical_session_timeout_seconds = get_session_timeout_milliseconds()` -/
  | timeout
  /-- an assignment to `_start_connect_time` -/
  | connectTime
  /-- `zoo_create` on `_zk_handle`, for the presence node -/
  | createNode
  /-- a handler that only prints -/
  | print
deriving DecidableEq, Repr

/-- What `zk_watcher` runs for a session event. -/
def callback : ZooState → List CbStmt
  | .connected => [.clientid, .timeout, .connectTime, .createNode]
  | .connecting => [.connectTime, .print]
  | _ => [.print]

/-- Where the thread that owns the object stands. -/
inductive OwnerPc
  | idle
  /-- in `zookeeper_close`, which joins the threads -/
  | closing
  /-- `zookeeper_close` is back, and the member is not yet null -/
  | closed
  /-- in `zookeeper_init`, before `start_threads` -/
  | init
  /-- `zookeeper_init` has its result, and the member does not -/
  | inited (h : Option Nat)
deriving DecidableEq, Repr

/-- A statement of a callback: the handle that raised it, and the value of
`_zk_handle` at that moment. -/
structure Use where
  raised : Nat
  stmt : CbStmt
  member : Option Nat
deriving DecidableEq, Repr

/-- `handle` is `_zk_handle`. A handle is a number, and `next` is the next one.
`running` says that its threads have been started and not joined, and `todo`
is what is left of its callback. `used` is every statement so far. -/
structure Bag where
  handle : Option Nat
  owner : OwnerPc
  next : Nat
  running : Nat → Bool
  todo : Nat → List CbStmt
  used : List Use

namespace Bag

inductive Label
  | create_session
  | recreate_session
  | join
  | setNull
  | start_threads
  | initFails
  | assign
  | deliver (h : Nat) (e : ZooState)
  | stmt (h : Nat)
deriving DecidableEq, Repr

def start : Bag :=
  { handle := none, owner := .idle, next := 0, running := fun _ => false, todo := fun _ => [],
    used := [] }

/-- The completion thread of `h` runs the statement `c`, and has `rest` left. -/
def runs (s : Bag) (h : Nat) (c : CbStmt) (rest : List CbStmt) : Bag :=
  { s with todo := Function.update s.todo h rest,
           used := s.used ++ [{ raised := h, stmt := c, member := s.handle }] }

def step (s : Bag) : Label → Option Bag
  | .create_session => if s.owner = .idle then some { s with owner := .init } else none
  | .recreate_session =>
    -- `close_session` does nothing without a handle
    if s.owner = .idle then
      some { s with owner := if s.handle = none then .init else .closing }
    else none
  | .join => match s.handle with
    | some h =>
      if s.owner = .closing ∧ s.todo h = [] then
        some { s with owner := .closed, running := Function.update s.running h false }
      else none
    | none => none
  | .setNull => if s.owner = .closed then some { s with owner := .init, handle := none } else none
  | .start_threads =>
    if s.owner = .init then
      some { s with owner := .inited (some s.next), next := s.next + 1,
                    running := Function.update s.running s.next true }
    else none
  | .initFails => if s.owner = .init then some { s with owner := .inited none } else none
  | .assign => match s.owner with
    | .inited h => some { s with owner := .idle, handle := h }
    | _ => none
  | .deliver h e =>
    if s.running h ∧ s.todo h = [] then some (s.runs h .watcher (callback e)) else none
  | .stmt h => match s.todo h with
    | c :: rest => if s.running h then some (s.runs h c rest) else none
    | [] => none

def system : System Bag Label where
  start s := s = start
  step := step

/-- Every statement of a callback ran on the handle that raised it. -/
def OnOwnHandle (s : Bag) : Prop := ∀ u ∈ s.used, u.member = some u.raised

/-- The handle whose callback takes a step. -/
def Label.raised : Label → Option Nat
  | .deliver h _ | .stmt h => some h
  | _ => none

/-- No callback of a handle runs before the member is assigned, and
`create_session` is not called on an object that has a handle. -/
def AfterInit (s : Bag) (l : Label) : Prop :=
  (∀ h ∈ l.raised, s.owner ≠ .inited (some h)) ∧ (l = .create_session → s.handle = none)

instance (s : Bag) (l : Label) : Decidable (AfterInit s l) :=
  inferInstanceAs (Decidable ((∀ h ∈ l.raised, _) ∧ (_ → _)))

/-! ## The invariant -/

/-- A handle with threads is the member, or about to become it. While it is
made, and while it is closed, no other one has threads. -/
structure Inv (s : Bag) : Prop where
  running : ∀ h, s.running h = true → s.owner = .inited (some h) ∨
    (s.handle = some h ∧ (s.owner = .idle ∨ s.owner = .closing))
  null : s.owner = .init ∨ (∃ h, s.owner = .inited h) → s.handle = none
  used : OnOwnHandle s

theorem inv_start : Inv start where
  running := by intro h hr; cases hr
  null := by rintro (h | ⟨_, h⟩) <;> cases h
  used := by intro u hu; cases hu

/-- A step of a callback is one statement of a thread that was started. -/
theorem step_runs {s s' : Bag} {l : Label} {k : Nat} (hl : l.raised = some k)
    (hs : s.step l = some s') : s.running k = true ∧ ∃ c rest, s' = s.runs k c rest := by
  cases l with
  | deliver j e =>
    cases hl
    simp only [step] at hs
    split at hs
    · rename_i hr
      cases hs
      exact ⟨hr.1, .watcher, callback e, rfl⟩
    · cases hs
  | stmt j =>
    cases hl
    simp only [step] at hs
    split at hs
    · rename_i c rest _
      split at hs
      · rename_i hr
        cases hs
        exact ⟨hr, c, rest, rfl⟩
      · cases hs
    · cases hs
  | _ => cases hl

/-- A statement of a callback outside of `zookeeper_init`. -/
theorem Inv.runs {s : Bag} (h : Inv s) {k : Nat} {c : CbStmt} {rest : List CbStmt}
    (hr : s.running k = true) (hg : s.owner ≠ .inited (some k)) : Inv (s.runs k c rest) := by
  refine ⟨h.running, h.null, ?_⟩
  intro u hu
  rcases List.mem_append.mp hu with hu | hu
  · exact h.used u hu
  · rw [List.mem_singleton] at hu
    subst hu
    exact ((h.running k hr).resolve_left hg).1

theorem Inv.idle {s : Bag} (h : Inv s) (hn : s.handle = none) (hi : s.owner = .idle) (k : Nat) :
    s.running k = false := by
  by_contra hr
  rcases h.running k (by simpa using hr) with h1 | ⟨h1, _⟩
  · rw [hi] at h1
    cases h1
  · rw [hn] at h1
    cases h1

/-- The owner begins to make a handle when there is none. -/
theorem Inv.toInit {s : Bag} (h : Inv s) (hn : s.handle = none)
    (hr : ∀ k, s.running k = false) : Inv { s with owner := .init } := by
  refine ⟨?_, fun _ => hn, h.used⟩
  intro k hk
  rw [hr k] at hk
  cases hk

theorem Inv.quiet {s : Bag} (h : Inv s) (ho : s.owner = .closed ∨ s.owner = .init) (k : Nat) :
    s.running k = false := by
  by_contra hr
  rcases h.running k (by simpa using hr) with h1 | ⟨_, h1 | h1⟩ <;>
    rcases ho with ho | ho <;> rw [ho] at h1 <;> cases h1

theorem inv_step {s s' : Bag} {l : Label} (h : Inv s) (hg : AfterInit s l)
    (hs : s.step l = some s') : Inv s' := by
  cases l with
  | create_session =>
    simp only [step] at hs
    split at hs
    · rename_i hi
      cases hs
      have hn := hg.2 rfl
      exact h.toInit hn (h.idle hn hi)
    · cases hs
  | recreate_session =>
    simp only [step] at hs
    split at hs
    · rename_i hi
      cases hs
      by_cases hn : s.handle = none
      · rw [if_pos hn]
        exact h.toInit hn (h.idle hn hi)
      · rw [if_neg hn]
        refine ⟨?_, by simp, h.used⟩
        intro k hk
        rcases h.running k hk with h1 | ⟨h1, _⟩
        · rw [hi] at h1
          cases h1
        · exact Or.inr ⟨h1, Or.inr rfl⟩
    · cases hs
  | join =>
    simp only [step] at hs
    split at hs
    · rename_i k hk
      split at hs
      · rename_i hc
        cases hs
        refine ⟨?_, by simp, h.used⟩
        intro j hj
        -- only the handle that is closed had threads
        by_cases hjk : j = k
        · subst hjk
          simp at hj
        · simp only [Function.update_of_ne hjk] at hj
          rcases h.running j hj with h1 | ⟨h1, _⟩
          · rw [hc.1] at h1
            cases h1
          · rw [hk] at h1
            cases h1
            exact absurd rfl hjk
      · cases hs
    · cases hs
  | setNull =>
    simp only [step] at hs
    split at hs
    · rename_i hc
      cases hs
      refine ⟨?_, fun _ => rfl, h.used⟩
      intro k hk
      rw [h.quiet (Or.inl hc) k] at hk
      cases hk
    · cases hs
  | start_threads =>
    simp only [step] at hs
    split at hs
    · rename_i hi
      cases hs
      refine ⟨?_, fun _ => h.null (Or.inl hi), h.used⟩
      intro k hk
      by_cases hkn : k = s.next
      · subst hkn
        exact Or.inl rfl
      · simp only [Function.update_of_ne hkn, h.quiet (Or.inr hi) k, Bool.false_eq_true] at hk
    · cases hs
  | initFails =>
    simp only [step] at hs
    split at hs
    · rename_i hi
      cases hs
      refine ⟨?_, fun _ => h.null (Or.inl hi), h.used⟩
      intro k hk
      rw [h.quiet (Or.inr hi) k] at hk
      cases hk
    · cases hs
  | assign =>
    simp only [step] at hs
    split at hs
    · rename_i r hr
      cases hs
      refine ⟨?_, by simp, h.used⟩
      intro k hk
      rcases h.running k hk with h1 | ⟨_, h1 | h1⟩ <;> rw [hr] at h1 <;> cases h1
      exact Or.inr ⟨rfl, Or.inl rfl⟩
    · cases hs
  | deliver k e =>
    obtain ⟨hr, c, rest, rfl⟩ := step_runs rfl hs
    exact h.runs hr (hg.1 k rfl)
  | stmt k =>
    obtain ⟨hr, c, rest, rfl⟩ := step_runs rfl hs
    exact h.runs hr (hg.1 k rfl)

theorem reach_inv {s : Bag} (h : system.ReachBy AfterInit s) : Inv s := by
  apply System.ReachBy.invariant (P := Inv) _ _ h
  · rintro s rfl
    exact inv_start
  · intro s l s' hp hg hs
    exact inv_step hp hg hs

/-- A statement of a callback leaves its trace. -/
theorem step_raised {s s' : Bag} {l : Label} {k : Nat} (hl : l.raised = some k)
    (hs : s.step l = some s') : ∃ c, { raised := k, stmt := c, member := s.handle } ∈ s'.used := by
  obtain ⟨_, c, rest, rfl⟩ := step_runs hl hs
  exact ⟨c, by simp [runs]⟩

/-- For every schedule of the two threads: as long as no callback comes before
the assignment, and no handle is written over, each statement of a callback
runs on its own handle. A callback that does come before the assignment runs
on a null handle. -/
theorem callbacks_act_on_their_handle {s : Bag} (hs : system.ReachBy AfterInit s) :
    OnOwnHandle s ∧
    ∀ l s' h, s.owner = .inited (some h) → l.raised = some h → system.step s l = some s' →
      ∃ c, { raised := h, stmt := c, member := none } ∈ s'.used := by
  have hinv := reach_inv hs
  refine ⟨hinv.used, ?_⟩
  intro l s' h ho hl hst
  obtain ⟨c, hc⟩ := step_raised hl hst
  rw [hinv.null (Or.inr ⟨_, ho⟩)] at hc
  exact ⟨c, hc⟩

/-- Both session callbacks of a handle that is replaced, and the first one of
the handle after it. -/
theorem callbacks_act_on_their_handle_of_recreates :
    ∃ s, system.ReachBy AfterInit s ∧ s.used.length = 11 ∧ s.handle = some 1 ∧ OnOwnHandle s := by
  obtain ⟨s, hs, ht⟩ := System.ReachBy.of_run (M := system) (G := AfterInit)
    ([.create_session, .start_threads, .assign, .deliver 0 .connected, .stmt 0, .stmt 0, .stmt 0,
      .stmt 0, .deliver 0 .connecting, .recreate_session, .stmt 0, .stmt 0, .join, .setNull,
      .start_threads, .assign, .deliver 1 .connected, .stmt 1, .stmt 1])
    (fun s => s.used.length == 11 && s.handle == some 1) (.start rfl) (by decide)
  simp only [Bool.and_eq_true, beq_iff_eq] at ht
  exact ⟨s, hs, ht.1, ht.2, (callbacks_act_on_their_handle hs).1⟩

/-- The first connection comes about before `create_session` has its handle. -/
theorem a_callback_runs_on_a_null_handle : ¬ ∀ s, system.Reach s → OnOwnHandle s := by
  intro h
  obtain ⟨s, hs, ht⟩ := System.Reach.of_run (M := system) (s := start)
    ([.create_session, .start_threads, .deliver 0 .connected, .stmt 0])
    (fun s => s.used.contains { raised := 0, stmt := .clientid, member := none }) rfl
    (by decide)
  cases h s hs _ (by simpa using ht)

end Bag

end ZookZhubei
