-- The loop of `run` against everything that the client library can answer.
-- The calls come back with any code and any payload, the handle changes in
-- any way, and nothing else is known of the server.
import ZookZhubei.Actions

namespace ZookZhubei

open Runs

/-! ## The loop on its own -/

/-- The caller waits for the library. -/
def Phase.waits : Phase → Bool
  | .queued | .sent | .replied _ => true
  | .entry | .checked | .returned _ => false

inductive LoopLabel
  /-- a statement of `run` or `work` -/
  | main (now : Int)
  /-- the library works on the call, or ends it -/
  | client (ph : Phase)
  | recreate (init : Option (Int × Str))
  | stop
  /-- the other threads -/
  | env (h : Handle) (start_connect_time : Int) (cb : Cb) (reg : Reg)
deriving DecidableEq, Repr

def loopStep (c : Config) (x : Inst) : LoopLabel → Option Inst
  | .main now => x.main c now
  | .client ph => match x.pc with
    | .call k p =>
      if p.waits && ph != .entry && ph != .checked then some { x with pc := .call k ph } else none
    | _ => none
  | .recreate init => x.recreate c init
  | .stop => some { x with stop := true }
  | .env h start_connect_time cb reg => some { x with h, start_connect_time, cb, reg }

/-- `run` with every answer that a client can give. -/
def loop (c : Config) : System Inst LoopLabel where
  start x := x = Inst.fresh c
  step := loopStep c

/-- The loop ends only with `_stop`, and nothing is thrown out of it but the
failure of `zookeeper_init` in `recreate_session`. -/
def Survives (c : Config) (x : Inst) : Prop :=
  (x.pc = .returned → x.stop = true) ∧
  ∀ e, x.pc = .threw e → ∃ errno text, e = reconnectFailed c.zk_nodes errno text

/-- The result that the caller is about to use: a read found the node, with a
payload, and a delete was acknowledged. -/
def Pc.answered : Pc → Prop
  | .call (.read _) (.returned r) => r.rc = ZOK ∧ r.data ≠ none
  | .call (.delete _ _) (.returned r) => r.rc = ZOK
  | _ => True

def Answered (x : Inst) : LoopLabel → Prop
  | .main _ => x.pc.answered
  | _ => True

instance : (pc : Pc) → Decidable pc.answered
  | .call (.read _) (.returned r) => inferInstanceAs (Decidable (r.rc = ZOK ∧ r.data ≠ none))
  | .call (.delete _ _) (.returned r) => inferInstanceAs (Decidable (r.rc = ZOK))
  | .call (.read _) .entry | .call (.read _) .checked | .call (.read _) .queued
  | .call (.read _) .sent | .call (.read _) (.replied _) | .call (.delete _ _) .entry
  | .call (.delete _ _) .checked | .call (.delete _ _) .queued | .call (.delete _ _) .sent
  | .call (.delete _ _) (.replied _) | .call .race _ | .call (.exist _) _ | .head | .failed _
  | .recreate | .standby _ | .pause | .work _ | .check _ _ | .idle _ | .yielded _
  | .returned | .threw _ => isTrue trivial

instance (x : Inst) : (l : LoopLabel) → Decidable (Answered x l)
  | .main _ => inferInstanceAs (Decidable x.pc.answered)
  | .client _ | .recreate _ | .stop | .env _ _ _ _ => isTrue trivial

/-! ## One step -/

variable {c : Config} {x x' : Inst} {l : LoopLabel}

theorem survives_of_pc {x : Inst} (hr : x.pc ≠ .returned) (ht : ∀ e, x.pc ≠ .threw e) :
    Survives c x :=
  ⟨fun h => absurd h hr, fun e h => absurd h (ht e)⟩

/-- A call throws when its result is bad, and what it throws is not the
exception of `recreate_session`. -/
theorem not_survives_of_threw {x : Inst} {e : Exn} (hpc : x.pc = .threw e)
    (he : ∀ errno text, e ≠ reconnectFailed c.zk_nodes errno text) : ¬ Survives c x := by
  rintro ⟨_, h⟩
  obtain ⟨errno, text, h1⟩ := h e hpc
  exact he errno text h1

/-- A statement keeps the loop alive exactly when the answer it uses is a good
one. -/
theorem main_survives_iff {now : Int} (h : x.main c now = some x') :
    Survives c x' ↔ x.pc.answered := by
  obtain ⟨pc, hn, rfl⟩ := Inst.main_eq h
  cases Inst.next_flow hn with
  | stops hpc hs => exact iff_of_true ⟨fun _ => hs, by simp⟩ (by rw [hpc]; trivial)
  | unread b r e hpc hr he =>
    refine iff_of_false (not_survives_of_threw rfl ?_) ?_
    · rcases he with rfl | rfl <;> simp [getFailed, reconnectFailed]
    · rw [hpc]
      exact fun ha => ha.2 (hr ha.1)
  | undeleted via zhu r hpc hr =>
    refine iff_of_false (not_survives_of_threw rfl ?_) ?_
    · simp [deleteFailed, reconnectFailed]
    · rw [hpc]
      exact hr
  | _ =>
    refine iff_of_true (survives_of_pc (by simp) (by simp)) ?_
    simp_all [Pc.answered]

theorem loopStep_survives_iff (hx : Survives c x) (h : loopStep c x l = some x') :
    Survives c x' ↔ Answered x l := by
  cases l with
  | main now => exact main_survives_iff h
  | client ph =>
    refine iff_of_true ?_ trivial
    simp only [loopStep] at h
    split at h
    · split at h
      · cases h
        exact survives_of_pc (by simp) (by simp)
      · cases h
    · cases h
  | recreate init =>
    refine iff_of_true ?_ trivial
    obtain ⟨_, ⟨_, rfl⟩ | ⟨errno, text, _, rfl⟩⟩ := Inst.recreate_eq h
    · exact survives_of_pc (by simp) (by simp)
    · refine ⟨by simp, fun e he => ⟨errno, text, ?_⟩⟩
      cases he
      rfl
  | stop =>
    cases h
    exact iff_of_true ⟨fun _ => rfl, hx.2⟩ trivial
  | env h' t cb reg =>
    cases h
    exact iff_of_true hx trivial

/-! ## Every run -/

/-- For every sequence of answers, `run` survives exactly when each read that
it uses found the node, with a payload, and each delete was acknowledged. -/
theorem run_survives_iff (c : Config) {ls : List LoopLabel} {t : Inst}
    (h : (loop c).run (Inst.fresh c) ls = some t) :
    (loop c).Along (Survives c) (Inst.fresh c) ls ↔ (loop c).Meets Answered (Inst.fresh c) ls :=
  System.along_iff_meets (fun _ _ _ hx hs => loopStep_survives_iff hx hs)
    (survives_of_pc (by simp [Inst.fresh]) (by simp [Inst.fresh])) h

/-- The calls of a race that finds a node, and of the read after it. -/
def raceThenRead (r : Reply) : List LoopLabel :=
  [.main 1000, .main 1000, .main 1000, .client (.returned { rc := ZNODEEXISTS }), .main 1000,
    .main 1000, .main 1000, .client (.returned r), .main 1000]

set_option maxRecDepth 10000 in
/-- A read that finds `zk_1` leads into `work`. -/
theorem run_survives_iff_of_a_read :
    ∃ t, (loop (World.pair true)).run (Inst.fresh (World.pair true))
        (raceThenRead { rc := ZOK, data := some zk_1 }) = some t ∧ t.pc = .work .resumed ∧
      (loop (World.pair true)).Along (Survives (World.pair true)) (Inst.fresh (World.pair true))
        (raceThenRead { rc := ZOK, data := some zk_1 }) := by
  have ht : ((loop (World.pair true)).runBy Answered (Inst.fresh (World.pair true))
      (raceThenRead { rc := ZOK, data := some zk_1 })).any (fun t => t.pc == .work .resumed) =
        true := by decide
  obtain ⟨t, hr, ht⟩ := (Option.any_eq_true _ _).mp ht
  obtain ⟨hm, hr⟩ := System.runBy_eq_some_iff.mp hr
  exact ⟨t, hr, by simpa using ht, (run_survives_iff _ hr).mpr hm⟩

/-- The node goes between the race and the read, and `get_zk_data` throws. -/
theorem a_vanished_node_kills_the_loop :
    ¬ ∀ (c : Config) (x : Inst), (loop c).Reach x → Survives c x := by
  intro h
  obtain ⟨x, hx, ht⟩ := System.Reach.of_run (M := loop (World.pair true))
    (raceThenRead { rc := ZNONODE })
    (fun x => x.pc == .threw (getFailed (str "/master") ZNONODE)) rfl (by decide)
  obtain ⟨errno, text, he⟩ := (h _ x hx).2 _ (by simpa using ht)
  simp [getFailed, reconnectFailed] at he

/-! ## The loop in a deployment -/

/-- The other threads of the process are steps of `env`. -/
theorem loop_env (h : (loop c).Reach x) (hpc : x'.pc = x.pc) (hstop : x'.stop = x.stop) :
    (loop c).Reach x' := by
  refine System.Reach.step (M := loop c) h
    (l := .env x'.h x'.start_connect_time x'.cb x'.reg) ?_
  cases x'
  simp only at hpc hstop
  simp [loop, loopStep, hpc, hstop]

theorem loop_client (h : (loop c).Reach x) {k : Call} {ph ph' : Phase} (hpc : x.pc = .call k ph)
    (hw : ph.waits = true) (hne : ph' ≠ .entry ∧ ph' ≠ .checked) :
    (loop c).Reach { x with pc := .call k ph' } :=
  System.Reach.step (M := loop c) h (l := .client ph')
    (by simp [loop, loopStep, hpc, hw, hne.1, hne.2])

theorem loop_abort (h : (loop c).Reach x) (rc : Int) :
    (loop c).Reach { x with pc := x.pc.abort rc } := by
  cases hpc : x.pc with
  | call k ph =>
    cases ph with
    | entry | checked => exact loop_env h (by rw [hpc]; rfl) rfl
    | returned r => exact loop_env h (by rw [hpc]; rfl) rfl
    | queued | sent | replied r => exact loop_client h hpc rfl (by simp [Phase.abort])
  | _ => exact loop_env h (by rw [hpc]; rfl) rfl

/-- Every action of a process is one of the loop. -/
theorem loop_act {now : Int} {a : Act} (h : (loop c).Reach x) (hs : x.step c now a = some x') :
    (loop c).Reach x' := by
  cases a with
  | main => exact h.step (l := .main now) hs
  | recreate init => exact h.step (l := .recreate init) hs
  | stop => exact h.step (l := .stop) hs
  | completion =>
    obtain ⟨h1, h2, _⟩ := Inst.completion_frame hs
    exact loop_env h h1 h2
  | dial =>
    obtain ⟨_, rfl⟩ := Inst.dial_eq hs
    exact loop_env h rfl rfl
  | prime =>
    obtain ⟨_, rfl⟩ := Inst.prime_eq hs
    exact loop_env h rfl rfl
  | loss rc =>
    obtain ⟨_, _, rfl⟩ := Inst.loss_eq hs
    exact loop_env (loop_abort h rc) rfl rfl
  | send t =>
    obtain ⟨hp, _, rfl⟩ := Inst.send_eq hs
    cases t with
    | main =>
      obtain ⟨k, hk⟩ := Inst.phase_main hp
      rw [Inst.setPhase_main _ hk]
      exact loop_client h hk rfl (by simp)
    | completion => exact loop_env h (by simp) (Inst.setPhase_stop _ _ _)
  | receive t =>
    obtain ⟨r, hp, _, rfl⟩ := Inst.receive_eq hs
    cases t with
    | main =>
      obtain ⟨k, hk⟩ := Inst.phase_main hp
      rw [Inst.setPhase_main _ hk]
      exact loop_client h hk rfl (by simp)
    | completion => exact loop_env h (by simp) (Inst.setPhase_stop _ _ _)
  | restart =>
    cases hs
    exact .start rfl

/-- Whatever a process of a deployment does, the loop on its own can do. So
its laws are laws of every deployment. -/
theorem World.reach_loop {ι : Type} [DecidableEq ι] {cfg : ι → Config} {w : World ι}
    (h : (World.system cfg).Reach w) (i : ι) : (loop (cfg i)).Reach (w.inst i) := by
  apply World.reach_inst (P := fun x => (loop (cfg i)).Reach x) (.start rfl) _ _ _ _ h
  · intro now x a x' hx hs
    exact loop_act hx hs
  · intro x s timeOut hx _
    exact loop_env hx rfl rfl
  · intro x hx _
    exact loop_env (loop_abort hx ZSESSIONEXPIRED) rfl rfl
  · intro x t r hx hp
    cases t with
    | main =>
      obtain ⟨k, hk⟩ := Inst.phase_main hp
      rw [Inst.setPhase_main _ hk]
      exact loop_client hx hk rfl (by simp)
    | completion => exact loop_env hx (by simp) (Inst.setPhase_stop _ _ _)

end ZookZhubei
