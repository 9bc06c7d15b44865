-- The end of a session, as the process sees it. From wherever it stands, the
-- main thread comes to `recreate_session`, or leaves, in a few statements,
-- and it is no master on the way. But a request that passed its check before
-- the end, and was queued after it, is never answered.
import ZookZhubei.Sessions
import ZookZhubei.Mastership

namespace ZookZhubei

open Runs

/-! ## The way out -/

/-- The main thread neither waits for the library nor is about to. -/
def Pc.settled : Pc → Bool
  | .call _ .checked | .call _ .queued | .call _ .sent | .call _ (.replied _) => false
  | _ => true

/-- A call has passed its check of the state, and its request is not queued. -/
def Pc.unqueued : Pc → Bool
  | .call _ .checked => true
  | _ => false

/-- The last race on a dead handle, and what follows it. -/
def Pc.abandons : Pc → Bool
  | .call .race .entry | .recreate => true
  | .call .race (.returned r) => goneCode r.rc
  | .failed rc => goneCode rc
  | _ => false

/-- How many statements the main thread still takes on a dead handle. -/
def Pc.rank : Pc → Nat
  | .returned | .threw _ | .recreate => 0
  | .failed rc => if goneCode rc then 1 else 6
  | .call .race (.returned r) => if goneCode r.rc then 2 else 9
  | .call .race .entry => 3
  | .head => 4
  | .pause => 5
  | .standby _ | .work _ | .yielded _ => 6
  | .idle _ | .call (.read _) (.returned _) | .call (.delete _ _) (.returned _) => 7
  | .check _ _ | .call (.read _) .entry | .call (.delete _ _) .entry => 8
  | .call (.exist _) (.returned _) => 9
  | .call (.exist _) .entry => 10
  | .call _ _ => 0

theorem Pc.rank_le (pc : Pc) : pc.rank ≤ 10 := by
  unfold Pc.rank
  split <;> first
    | split <;> decide
    | decide

def Pc.looks : Pc → Bool
  | .call (.exist _) .entry => true
  | _ => false

def Pc.races : Pc → Bool
  | .call .race .entry => true
  | _ => false

namespace Inst

variable {c : Config} {now : Int} {x x' : Inst} {a : Act}

theorem Request_path_init_dead {path : Str} (hx : x.h.state = .expired)
    (hv : isValidPath false path = true) : Request_path_init x.h.state path = ZINVALIDSTATE := by
  simp [Request_path_init, hv, hx]

theorem expired_of_state (hx : x.h.state = .expired) (now : Int) : x.expired now = true := by
  rw [Inst.expired, hx, is_session_expired_expired]

/-- On a dead handle no call is queued, no pass of `work` begins, and `work` does
not come to a delete. -/
theorem next_dead (hx : x.h.state = .expired) (hs : x.pc.settled = true) {pc : Pc}
    (h : x.next c now = some pc) :
    pc.settled = true ∧ pc.looks = false ∧
      ∀ via zhu, pc = .call (.delete via zhu) .entry → False := by
  cases next_flow h with
  | checked k hpc hr =>
    simp only [Request_path_init, hx, is_unrecoverable_expired, if_true] at hr
    split at hr <;> cases hr
  | queued k hpc =>
    rw [hpc] at hs
    cases hs
  | looks via hpc _ he =>
    rw [expired_of_state hx] at he
    cases he
  | yields via zhu hpc hst =>
    rw [hx] at hst
    cases hst
  | refused k rc _ _ _ => cases k <;> exact ⟨rfl, rfl, by simp⟩
  | _ => exact ⟨rfl, rfl, by simp⟩

theorem next_rank (hv : isValidPath false c.master_path = true) (hx : x.h.state = .expired)
    (hs : x.pc.settled = true) {pc : Pc} (h : x.next c now = some pc) :
    1 + pc.rank ≤ x.pc.rank := by
  have hd := next_dead hx hs h
  cases next_flow h with
  | checked k hpc hr | queued k hpc => exact absurd hd.1 (by simp [Pc.settled])
  | looks via hpc _ he => exact absurd hd.2.1 (by simp [Pc.looks])
  | yields via zhu hpc hst => exact absurd rfl (hd.2.2 via zhu)
  | refused k rc hpc hrc hreq =>
    rw [hpc]
    cases k with
    | race =>
      rw [Call.op, Op.path, Request_path_init_dead hx hv] at hreq
      subst hreq
      decide
    | _ => simp [Pc.rank]
  | won r hpc hr =>
    rw [hpc]
    simp only [Pc.rank, hr]
    decide
  | blocked r hpc hr =>
    rw [hpc]
    simp only [Pc.rank, hr]
    decide
  | failed r hpc _ _ =>
    rw [hpc]
    simp only [Pc.rank]
    split <;> decide
  | gone rc hpc hr =>
    rw [hpc]
    simp [Pc.rank, hr]
  | retries rc hpc hr =>
    rw [hpc]
    simp [Pc.rank, hr]
  | _ => simp_all [Pc.rank]

theorem next_abandons (hv : isValidPath false c.master_path = true) (hx : x.h.state = .expired)
    (hs : x.pc.settled = true) {pc : Pc} (h : x.next c now = some pc)
    (ha : x.pc.abandons = true) : pc.abandons = true ∧ pc.races = false := by
  have hd := next_dead hx hs h
  cases next_flow h with
  | checked k hpc hr | queued k hpc => exact absurd hd.1 (by simp [Pc.settled])
  | refused k rc hpc hrc hreq =>
    rw [hpc] at ha
    cases k with
    | race =>
      rw [Call.op, Op.path, Request_path_init_dead hx hv] at hreq
      subst hreq
      exact ⟨rfl, rfl⟩
    | _ => cases ha
  | won r hpc hr | blocked r hpc hr =>
    rw [hpc] at ha
    simp only [Pc.abandons, hr] at ha
    cases ha
  | failed r hpc _ _ =>
    rw [hpc] at ha
    exact ⟨ha, rfl⟩
  | gone rc hpc hr => exact ⟨rfl, rfl⟩
  | retries rc hpc hr =>
    rw [hpc] at ha
    simp [Pc.abandons, hr] at ha
  | _ => simp_all [Pc.abandons]

/-- The main thread is stuck nowhere but at its end, and before
`recreate_session`. -/
theorem next_of_settled (c : Config) (now : Int) (hs : x.pc.settled = true) :
    (x.next c now).isSome = true ∨ x.pc = .recreate ∨ x.pc = .returned ∨ ∃ e, x.pc = .threw e := by
  cases hpc : x.pc with
  | call k ph =>
    rw [hpc] at hs
    cases ph with
    | entry | returned r => exact Or.inl (by simp [Inst.next, hpc])
    | checked | queued | sent | replied r => cases hs
  | recreate => exact Or.inr (Or.inl rfl)
  | returned => exact Or.inr (Or.inr (Or.inl rfl))
  | threw e => exact Or.inr (Or.inr (Or.inr ⟨e, rfl⟩))
  | _ => exact Or.inl (by simp [Inst.next, hpc])

/-- The main thread waits for an answer that never comes. -/
def Stuck (x : Inst) : Prop := x.h.state = .expired ∧ ∃ k, x.pc = .call k .queued

structure Renewed (c : Config) (init : Option (Int × Str)) (x' : Inst) : Prop where
  new : init = none →
    x'.pc = .pause ∧ x'.h = zookeeper_init (c.session_timeout_seconds * 1000)
  failed : ∀ errno text, init = some (errno, text) →
    x'.pc = .threw (reconnectFailed c.zk_nodes errno text)

theorem recreate_renewed {init : Option (Int × Str)} (h : x.recreate c init = some x') :
    Renewed c init x' := by
  obtain ⟨_, ⟨rfl, rfl⟩ | ⟨errno, text, rfl, rfl⟩⟩ := recreate_eq h
  · exact ⟨fun _ => ⟨rfl, rfl⟩, by simp⟩
  · refine ⟨by simp, fun e t he => ?_⟩
    cases he
    rfl

theorem recreate_isSome (hp : x.pc = .recreate) (init : Option (Int × Str)) :
    (x.recreate c init).isSome = true := by
  unfold Inst.recreate
  rw [if_pos hp]
  split <;> rfl

end Inst

/-! ## Every deployment -/

namespace World

variable {ι : Type} {cfg : ι → Config} {w w' : World ι} {l : Label ι} {i : ι}

/-- No handshake tells `i` of the end of its session between the check and the
queueing of a request of its main thread. -/
def QueuesInTime (i : ι) (w : World ι) : Label ι → Prop
  | .handshake j _ =>
    j = i → (w.inst i).pc.unqueued = true → (w.inst i).h.client_id.all w.srv.live = true
  | _ => True

/-- The session of the current handle has ended, and the process knows it. -/
structure Dead (i : ι) (w : World ι) : Prop where
  state : (w.inst i).h.state = .expired
  settled : (w.inst i).pc.settled = true

theorem abort_settled {pc : Pc} (rc : Int) (hu : pc.unqueued = false) :
    (pc.abort rc).settled = true := by
  cases pc with
  | call k ph =>
    cases ph with
    | checked => cases hu
    | _ => rfl
  | _ => rfl

theorem Pc.settled_unqueued {pc : Pc} (h : pc.settled = true) : pc.unqueued = false := by
  unfold Pc.unqueued
  split
  · cases h
  · rfl

variable [DecidableEq ι]

instance (i : ι) (w : World ι) : (l : Label ι) → Decidable (QueuesInTime i w l)
  | .handshake _ _ => inferInstanceAs (Decidable (_ → _ → Option.all _ _ = true))
  | .act _ _ | .serve _ _ | .refuse _ _ _ | .late _ | .drop _ | .expire _ | .edit _
  | .tick _ => isTrue trivial

/-- The step gives the process `i` another handle. -/
def Label.replaces (i : ι) : Label ι → Bool
  | .act j .restart | .act j (.recreate _) => j == i
  | _ => false

/-- Whoever knows of the end of its session waits for nothing. -/
theorem reach_settled (h : (system cfg).ReachBy (QueuesInTime i) w) :
    (w.inst i).h.state = .expired → (w.inst i).pc.settled = true := by
  apply reachBy_inst (P := fun x => x.h.state = .expired → x.pc.settled = true) _ _ _ _ _ h
  · intro hx
    cases hx
  · intro w a x' hp hg hs hx
    cases Inst.step_moves hs with
    | ran pc hn hx' =>
      subst hx'
      exact (Inst.next_dead (x := w.inst i) hx (hp hx) hn).1
    | kept _ _ hpc _ hk =>
      rw [hpc]
      rcases hk with he | ⟨_, hu⟩
      · exact hp (he ▸ hx)
      · rw [hx] at hu
        cases hu
    | sent k hk hx' =>
      subst hx'
      have := hp hx
      rw [hk] at this
      cases this
    | received k r hk hx' =>
      subst hx'
      rfl
    | lost rc _ hpc _ hk =>
      rw [hpc]
      rcases hk with he | ⟨_, hu⟩
      · exact abort_settled rc (Pc.settled_unqueued (hp (he ▸ hx)))
      · rw [hx] at hu
        cases hu
    | recreated init _ _ hu _ =>
      rw [hx] at hu
      cases hu
    | restarted hx' =>
      subst hx'
      rfl
  · intro x s timeOut _ _ hx
    cases hx
  · intro w timeOut s _ hg _ hcl hl _
    have hu : (w.inst i).pc.unqueued = false := by
      by_contra hu
      have := hg rfl (by simpa using hu)
      simp [hcl, hl] at this
    exact abort_settled _ hu
  · intro x t r hp hph
    cases t with
    | completion =>
      rw [Inst.setPhase_h, Inst.setPhase_completion_pc]
      exact hp
    | main =>
      obtain ⟨k, hk⟩ := Inst.phase_main hph
      rw [Inst.setPhase_main _ hk]
      intro hx
      have := hp hx
      rw [hk] at this
      cases this

theorem reach_dead (h : (system cfg).ReachBy (QueuesInTime i) w)
    (hx : (w.inst i).h.state = .expired) : Dead i w :=
  ⟨hx, reach_settled h hx⟩

theorem dead_act {a : Act} {x' : Inst} (hd : (w.inst i).h.state = .expired)
    (hA : Label.replaces i (.act i a) = false)
    (hx : (w.inst i).step (cfg i) w.now a = some x') :
    x'.h.state = .expired ∧ (a = .main ∧ (w.inst i).next (cfg i) w.now = some x'.pc ∨
      a ≠ .main ∧ x'.pc = (w.inst i).pc) := by
  cases a with
  | main =>
    obtain ⟨pc, hn, rfl⟩ := Inst.main_eq hx
    exact ⟨hd, Or.inl ⟨rfl, hn⟩⟩
  | recreate init | restart => simp [Label.replaces] at hA
  | stop =>
    cases hx
    exact ⟨hd, Or.inr ⟨by simp, rfl⟩⟩
  | completion =>
    obtain ⟨h1, _, h3, _⟩ := Inst.completion_frame hx
    exact ⟨h3.trans hd, Or.inr ⟨by simp, h1⟩⟩
  | dial =>
    obtain ⟨hs, _⟩ := Inst.dial_eq hx
    rw [hd] at hs
    rcases hs with hs | hs <;> cases hs
  | prime =>
    obtain ⟨hs, _⟩ := Inst.prime_eq hx
    rw [hd] at hs
    cases hs
  | loss rc =>
    obtain ⟨_, hs, _⟩ := Inst.loss_eq hx
    rw [hd] at hs
    cases hs
  | send t =>
    obtain ⟨_, hs, _⟩ := Inst.send_eq hx
    rw [hd] at hs
    cases hs
  | receive t =>
    obtain ⟨_, _, hs, _⟩ := Inst.receive_eq hx
    rw [hd] at hs
    cases hs

/-- The same for a step of the deployment. No answer comes to a thread that
the server does not owe one. -/
theorem dead_step (hd : (w.inst i).h.state = .expired)
    (hsent : ∀ k, (w.inst i).pc ≠ .call k .sent) (hA : Label.replaces i l = false)
    (hs : w.step cfg l = some w') :
    (w'.inst i).h.state = .expired ∧
      (l.runs = some i ∧ (w.inst i).next (cfg i) w.now = some (w'.inst i).pc ∨
        l.runs ≠ some i ∧ (w'.inst i).pc = (w.inst i).pc) := by
  have hother : ∀ {j : ι} {x' : Inst}, i ≠ j → ((w.setInst j x').inst i).h.state = .expired ∧
      ((w.setInst j x').inst i).pc = (w.inst i).pc := by
    intro j x' hij
    rw [setInst_ne w x' hij]
    exact ⟨hd, rfl⟩
  have hrep : ∀ {j : ι} {t : Thread} {r : Reply}, (w.inst j).phase t = some .sent →
      ((w.setInst j ((w.inst j).setPhase (.replied r) t)).inst i).h.state = .expired ∧
      ((w.setInst j ((w.inst j).setPhase (.replied r) t)).inst i).pc = (w.inst i).pc := by
    intro j t r hph
    by_cases hij : i = j
    · subst hij
      simp only [setInst_self, Inst.setPhase_h]
      refine ⟨hd, ?_⟩
      cases t with
      | completion => rw [Inst.setPhase_completion_pc]
      | main =>
        obtain ⟨k, hk⟩ := Inst.phase_main hph
        exact absurd hk (hsent k)
    · exact hother hij
  cases step_trans hs with
  | act j a x' hx =>
    by_cases hij : i = j
    · subst hij
      obtain ⟨h1, h2⟩ := dead_act hd hA hx
      simp only [setInst_self]
      refine ⟨h1, ?_⟩
      rcases h2 with ⟨rfl, hn⟩ | ⟨hne, hpc⟩
      · exact Or.inl ⟨rfl, hn⟩
      · refine Or.inr ⟨?_, hpc⟩
        cases a <;> simp_all [Label.runs]
    · refine ⟨(hother hij).1, Or.inr ⟨?_, (hother hij).2⟩⟩
      cases a <;> simp [Label.runs, Ne.symm hij]
  | opened j timeOut ha _ | reattached j timeOut s ha _ _ | expired j timeOut s ha _ _ =>
    have hij : i ≠ j := by rintro rfl; rw [hd] at ha; cases ha
    exact ⟨(hother hij).1, Or.inr ⟨by simp [Label.runs], (hother hij).2⟩⟩
  | served j t s op hph _ _ | refused j t rc s op hph _ _ _ _ =>
    exact ⟨(hrep hph).1, Or.inr ⟨by simp [Label.runs], (hrep hph).2⟩⟩
  | _ => exact ⟨hd, Or.inr ⟨by simp [Label.runs], rfl⟩⟩

theorem Dead.step (h : Dead i w) (hA : Label.replaces i l = false)
    (hs : w.step cfg l = some w') :
    (w'.inst i).h.state = .expired ∧
      (l.runs = some i ∧ (w.inst i).next (cfg i) w.now = some (w'.inst i).pc ∨
        l.runs ≠ some i ∧ (w'.inst i).pc = (w.inst i).pc) :=
  dead_step h.state (fun k hk => by have := h.settled; rw [hk] at this; cases this) hA hs

theorem Dead.keeps (h : Dead i w) (hA : Label.replaces i l = false)
    (hs : w.step cfg l = some w') : Dead i w' := by
  obtain ⟨h1, ⟨_, hn⟩ | ⟨_, hpc⟩⟩ := h.step hA hs
  · exact ⟨h1, (Inst.next_dead h.state h.settled hn).1⟩
  · exact ⟨h1, by rw [hpc]; exact h.settled⟩

/-! ## Counting along a run -/

/-- One for a statement of `i` that leads to a place with `q`. -/
def comesTo (cfg : ι → Config) (i : ι) (q : Pc → Bool) (w : World ι) (l : Label ι) : Nat :=
  if l.runs = some i ∧ ((w.inst i).next (cfg i) w.now).any q = true then 1 else 0

/-- How often the main thread of `i` comes to a place with `q` in a run. -/
def visits (cfg : ι → Config) (i : ι) (q : Pc → Bool) : World ι → List (Label ι) → Nat :=
  (system cfg).cost (comesTo cfg i q)

/-- A bound on the visits: what each statement on a dead handle leaves of it. -/
theorem Dead.visits_le {q : Pc → Bool} {b : Pc → Nat}
    (hb : ∀ (w : World ι) pc, Dead i w → (w.inst i).next (cfg i) w.now = some pc →
      (q pc).toNat + b pc ≤ b (w.inst i).pc)
    (h : Dead i w) {ls : List (Label ι)} (hA : ∀ l ∈ ls, Label.replaces i l = false)
    (hr : (system cfg).run w ls = some w') :
    Dead i w' ∧ visits cfg i q w ls + b (w'.inst i).pc ≤ b (w.inst i).pc := by
  refine System.run_cost_le (M := system cfg) (P := Dead i)
    (A := fun l => Label.replaces i l = false)
    (f := comesTo cfg i q) (b := fun w => b (w.inst i).pc) ?_ h hA hr
  intro w l w' hd hA hs
  refine ⟨hd.keeps hA hs, ?_⟩
  obtain ⟨_, ⟨hl, hn⟩ | ⟨hl, hpc⟩⟩ := hd.step hA hs
  · have hle := hb w _ hd hn
    simp only [comesTo, hl, hn, Option.any_some, true_and]
    cases hq : q (w'.inst i).pc <;> simp_all
  · simp only [comesTo, hl, false_and, if_false, hpc]
    omega

/-! ## The end of a session -/

/-- A session that has ended changes nothing any more. -/
theorem request_of_ended {s : Session} {op : Op} (hs : w.step cfg l = some w')
    (hr : w.request cfg l = some (s, op)) (hl : w.srv.live s = false) : w'.srv = w.srv := by
  cases step_trans hs with
  | served j t s' op' _ hc ho =>
    simp only [request, hc, ho, Option.some.injEq, Prod.mk.injEq] at hr
    obtain ⟨rfl, rfl⟩ := hr
    rw [Server.apply_ended hl]
  | late k s' op' hk =>
    simp only [request, hk, Option.some.injEq, Prod.mk.injEq] at hr
    obtain ⟨rfl, rfl⟩ := hr
    rw [Server.apply_ended hl]
  | _ => cases hr

/-- What a run from `w` to `w'` makes of a process `i` whose handle is dead at
`w`, and stays the same. -/
structure Abandoned (cfg : ι → Config) (i : ι) (w : World ι) (ls : List (Label ι))
    (w' : World ι) : Prop where
  /-- `is_session_expired` is true -/
  expired : ∀ now, (w'.inst i).expired now = true
  /-- no pass of the loop of `work` began -/
  no_pass : visits cfg i Pc.looks w ls = 0
  /-- a delete of the session has no effect at the server -/
  no_delete : ∀ l w'' s q, w'.step cfg l = some w'' → w'.request cfg l = some (s, .delete q) →
    (w'.inst i).h.client_id = some s → w''.srv = w'.srv
  /-- `run` started one more race at most -/
  one_race : visits cfg i Pc.races w ls ≤ 1
  /-- after that race there is only the way to `recreate_session` -/
  after_race : visits cfg i Pc.races w ls = 1 → (w'.inst i).pc.abandons = true
  /-- the main thread took ten statements at most -/
  bounded : visits cfg i (fun _ => true) w ls ≤ 10
  /-- it can go on, or it stands before `recreate_session`, or it has left -/
  goes_on : ((w'.inst i).next (cfg i) w'.now).isSome = true ∨ (w'.inst i).pc = .recreate ∨
    (w'.inst i).pc = .returned ∨ ∃ e, (w'.inst i).pc = .threw e
  /-- `recreate_session` can be called, whatever `zookeeper_init` gives -/
  renews : (w'.inst i).pc = .recreate → ∀ init,
    ((w'.inst i).recreate (cfg i) init).isSome = true

/-- The whole run is one of the dead handle, or that handle is replaced in the
end: by a restart, or by `recreate_session`, which leaves a new handle, or its
exception. -/
inductive Concluded (cfg : ι → Config) (i : ι) (w : World ι) (ls : List (Label ι))
    (w' : World ι) : Prop
  | kept : (∀ l ∈ ls, Label.replaces i l = false) → Abandoned cfg i w ls w' →
      Concluded cfg i w ls w'
  | replaced (ls₁ ls₂ : List (Label ι)) (l : Label ι) (w₁ w₂ : World ι) : ls = ls₁ ++ l :: ls₂ →
      (system cfg).run w ls₁ = some w₁ → Abandoned cfg i w ls₁ w₁ → w₁.step cfg l = some w₂ →
      (l = .act i .restart ∨
        ∃ init, l = .act i (.recreate init) ∧ Inst.Renewed (cfg i) init (w₂.inst i)) →
      (system cfg).run w₂ ls₂ = some w' → Concluded cfg i w ls w'

theorem Dead.no_pass (h : Dead i w) {ls : List (Label ι)}
    (hA : ∀ l ∈ ls, Label.replaces i l = false) (hr : (system cfg).run w ls = some w') :
    visits cfg i Pc.looks w ls = 0 := by
  have hle := (h.visits_le (q := Pc.looks) (b := fun _ => 0) (fun w pc hd hn => by
    rw [(Inst.next_dead hd.state hd.settled hn).2.1]
    decide) hA hr).2
  omega

theorem Dead.races_le (hv : isValidPath false (cfg i).master_path = true) (h : Dead i w)
    {ls : List (Label ι)} (hA : ∀ l ∈ ls, Label.replaces i l = false)
    (hr : (system cfg).run w ls = some w') :
    visits cfg i Pc.races w ls + (!(w'.inst i).pc.abandons).toNat ≤ 1 := by
  have hle := (h.visits_le (q := Pc.races) (b := fun pc => (!pc.abandons).toNat)
    (fun w pc hd hn => by
      cases ha : (w.inst i).pc.abandons with
      | true =>
        obtain ⟨h1, h2⟩ := Inst.next_abandons hv hd.state hd.settled hn ha
        rw [h1, h2]
        decide
      | false =>
        cases pc with
        | call k ph => cases k <;> cases ph <;> simp [Pc.races, Pc.abandons, Bool.toNat_le]
        | _ => simp [Pc.races, Bool.toNat_le]) hA hr).2
  exact Nat.le_trans hle (Bool.toNat_le _)

theorem Dead.abandoned (hv : isValidPath false (cfg i).master_path = true) (hd : Dead i w)
    (hw : (system cfg).Reach w) {ls : List (Label ι)}
    (hA : ∀ l ∈ ls, Label.replaces i l = false) (hr : (system cfg).run w ls = some w') :
    Abandoned cfg i w ls w' := by
  obtain ⟨hd', hrank⟩ := hd.visits_le (q := fun _ => true) (b := Pc.rank)
    (fun w pc hd hn => Inst.next_rank hv hd.state hd.settled hn) hA hr
  have hraces := hd.races_le hv hA hr
  refine ⟨fun now => Inst.expired_of_state hd'.state now, hd.no_pass hA hr, ?_, ?_, ?_, ?_,
    Inst.next_of_settled _ _ hd'.settled, fun hp init => Inst.recreate_isSome hp init⟩
  · intro l w'' s q hs hq hc
    obtain ⟨s', hs', hl⟩ := reach_retired (hw.run hr) i (Or.inr (by rw [hd'.state]; rfl))
    rw [hc] at hs'
    cases hs'
    exact request_of_ended hs hq hl
  · omega
  · intro h1
    cases ha : (w'.inst i).pc.abandons with
    | true => rfl
    | false => simp [ha, h1] at hraces
  · exact Nat.le_trans (Nat.le_of_add_right_le hrank) (Pc.rank_le _)

theorem Dead.concluded (hv : isValidPath false (cfg i).master_path = true) (hd : Dead i w)
    (hw : (system cfg).Reach w) {ls : List (Label ι)}
    (hr : (system cfg).run w ls = some w') : Concluded cfg i w ls w' := by
  cases hf : ls.find? (Label.replaces i) with
  | none =>
    have hA : ∀ l ∈ ls, Label.replaces i l = false := by simpa using hf
    exact .kept hA (hd.abandoned hv hw hA hr)
  | some l =>
    obtain ⟨hl, ls₁, ls₂, rfl, hA⟩ := List.find?_eq_some_iff_append.mp hf
    have hA : ∀ l ∈ ls₁, Label.replaces i l = false := fun l hl => by simpa using hA l hl
    rw [System.run_append, Option.bind_eq_some_iff] at hr
    obtain ⟨w₁, hr₁, hr₂⟩ := hr
    obtain ⟨w₂, hs, hr₂⟩ := System.run_cons_some hr₂
    refine .replaced ls₁ ls₂ l w₁ w₂ rfl hr₁ (hd.abandoned hv hw hA hr₁) hs ?_ hr₂
    cases l with
    | act j a =>
      cases a with
      | restart => exact Or.inl (by simpa [Label.replaces] using hl)
      | recreate init =>
        have hj : j = i := by simpa [Label.replaces] using hl
        subst hj
        refine Or.inr ⟨init, rfl, ?_⟩
        have hs : w₁.step cfg (.act j (.recreate init)) = some w₂ := hs
        cases step_trans hs with
        | act _ _ x' hx => simpa using Inst.recreate_renewed hx
      | _ => cases hl
    | _ => cases hl

/-! ## Requests that come too late -/

theorem stuck_step (h : (w.inst i).Stuck) (hl : l ≠ .act i .restart)
    (hs : w.step cfg l = some w') : (w'.inst i).Stuck := by
  refine step_inst (P := Inst.Stuck) ?_ ?_ ?_ ?_ h hs
  · rintro a x' rfl ⟨hd, k, hk⟩ hx
    cases a with
    | restart => exact absurd rfl hl
    | recreate init =>
      rw [(Inst.recreate_eq hx).1] at hk
      cases hk
    | main =>
      obtain ⟨pc, hn, _⟩ := Inst.main_eq hx
      simp [Inst.next, hk] at hn
    | _ =>
      obtain ⟨h1, h2⟩ := dead_act (a := _) hd (by rfl) hx
      refine ⟨h1, k, ?_⟩
      rcases h2 with ⟨ha, _⟩ | ⟨_, hpc⟩
      · cases ha
      · rw [hpc, hk]
  · rintro x s timeOut ⟨hd, _⟩ ha
    rw [hd] at ha
    cases ha
  · rintro timeOut s rfl ⟨hd, _⟩ ha _ _
    rw [hd] at ha
    cases ha
  · rintro x t r ⟨hd, k, hk⟩ hph
    cases t with
    | completion => exact ⟨by simpa using hd, k, by simpa using hk⟩
    | main =>
      obtain ⟨k', hk'⟩ := Inst.phase_main hph
      rw [hk'] at hk
      cases hk

theorem stuck_run (h : (w.inst i).Stuck) {ls : List (Label ι)}
    (hA : ∀ l ∈ ls, l ≠ .act i .restart) (hr : (system cfg).run w ls = some w') :
    (w'.inst i).Stuck := by
  have hstep : ∀ v l v', l ≠ .act i .restart → (v.inst i).Stuck →
      (system cfg).step v l = some v' → (v'.inst i).Stuck :=
    fun _ _ _ hl hv hs => stuck_step hv hl hs
  exact System.run_keeps (P := fun v => (v.inst i).Stuck) hstep hA h hr

/-- A step that breaks the condition leaves the main thread stuck with its next
statement. -/
theorem stuck_of_late (hg : ¬ QueuesInTime i w l) (hs : w.step cfg l = some w') :
    ∃ w'', w'.step cfg (.act i .main) = some w'' ∧ (w''.inst i).Stuck := by
  cases l with
  | handshake j timeOut =>
    simp only [QueuesInTime, Classical.not_imp] at hg
    obtain ⟨rfl, hu, hl⟩ := hg
    obtain ⟨k, hk⟩ : ∃ k, (w.inst j).pc = .call k .checked := by
      unfold Pc.unqueued at hu
      split at hu
      · rename_i k hk
        exact ⟨k, hk⟩
      · cases hu
    cases step_trans hs with
    | opened _ _ _ hc => simp [hc] at hl
    | reattached _ _ s _ hc hlive => simp [hc, hlive] at hl
    | expired _ _ s _ hc hlive =>
      refine ⟨_, (Trans.act j .main { (w.inst j).expire with pc := .call k .queued } ?_).step, ?_⟩
      · simp [Inst.step, Inst.main, Inst.next, Inst.expire, hk, Pc.abort, Phase.abort]
      · exact ⟨by simp [Inst.expire], k, by simp⟩
  | _ => exact absurd trivial hg

/-- For a process with a path that the client takes, in every run in which no
handshake tells of the end of the session between the check and the queueing
of a request, the end of a session is final: the process abandons the handle,
and whatever replaces it. One step that breaks the condition is enough to make
it wait for ever. -/
theorem an_expired_session_is_abandoned (hv : isValidPath false (cfg i).master_path = true)
    (hw : (system cfg).ReachBy (QueuesInTime i) w) :
    ((w.inst i).h.state = .expired → ∀ ls w', (system cfg).run w ls = some w' →
      Concluded cfg i w ls w') ∧
    (∀ l w', w.step cfg l = some w' → ¬ QueuesInTime i w l →
      ∃ w'', w'.step cfg (.act i .main) = some w'' ∧
        ∀ ls w₃, (∀ l ∈ ls, l ≠ .act i .restart) → (system cfg).run w'' ls = some w₃ →
          (w₃.inst i).Stuck) := by
  refine ⟨fun hx ls w' hr => (reach_dead hw hx).concluded hv hw.reach hr, ?_⟩
  intro l w' hs hg
  obtain ⟨w'', hs', h⟩ := stuck_of_late hg hs
  exact ⟨w'', hs', fun ls w₃ hA hr => stuck_run h hA hr⟩

/-- A master loses its connection, and the server ends its session. -/
def losesSession : List (Label Bool) :=
  connects false ++ [.act false .main] ++ calls false ++
    [.act false (.loss ZCONNECTIONLOSS), .expire 0] ++ connects false

def leavesWork : List (Label Bool) :=
  List.replicate 5 (.act false .main) ++ [.act false (.recreate none)] ++ connects false

set_option maxRecDepth 20000 in
theorem an_expired_session_is_abandoned_of_losesSession :
    ∃ w w' : World Bool, (system pair).ReachBy (QueuesInTime false) w ∧
      (w.inst false).h.state = .expired ∧ (system pair).run w leavesWork = some w' ∧
      (w'.inst false).h.state = .connected ∧ Concluded pair false w leavesWork w' := by
  obtain ⟨w, hw, ht⟩ := System.ReachBy.of_run (M := system pair) (G := QueuesInTime false)
    (losesSession)
    (fun w => (w.inst false).h.state == .expired &&
      ((system pair).run w leavesWork).any fun w' => (w'.inst false).h.state == .connected)
    (.start ⟨1000, rfl⟩) (by decide)
  simp only [Bool.and_eq_true, beq_iff_eq, Option.any_eq_true] at ht
  obtain ⟨hx, w', hr, hc⟩ := ht
  exact ⟨w, w', hw, hx, hr, hc,
    (an_expired_session_is_abandoned (by decide) hw).1 hx leavesWork w' hr⟩

/-- The session of a master ends between the check and the queueing of its
`zoo_exists`. It stays in that call for ever. -/
theorem it_waits_on_a_dead_handle :
    ¬ ∀ (cfg : Bool → Config) (i : Bool), isValidPath false (cfg i).master_path = true →
      ∀ w, (system cfg).Reach w → (w.inst i).h.state = .expired →
      ∃ ls w', (∀ l ∈ ls, l ≠ .act i .restart) ∧ (system cfg).run w ls = some w' ∧
        ((w'.inst i).pc = .recreate ∨ (w'.inst i).pc = .returned ∨
          ∃ e, (w'.inst i).pc = .threw e) := by
  intro h
  obtain ⟨w, hw, ht⟩ := System.Reach.of_run (M := system pair)
    (connects false ++ [.act false .main] ++ calls false ++ [.act false .main,
      .act false .main, .act false (.loss ZCONNECTIONLOSS), .expire 0] ++ connects false ++
      [.act false .main])
    (fun w => (w.inst false).h.state == .expired && (w.inst false).pc == .call (.exist .raced) .queued)
    ⟨1000, rfl⟩ (by set_option maxRecDepth 20000 in decide)
  simp only [Bool.and_eq_true, beq_iff_eq] at ht
  obtain ⟨hx, hpc⟩ := ht
  obtain ⟨ls, w', hA, hr, hend⟩ := h pair false (by decide) w hw hx
  obtain ⟨_, k, hk⟩ := stuck_run ⟨hx, _, hpc⟩ hA hr
  simp [hk] at hend

end World

end ZookZhubei
