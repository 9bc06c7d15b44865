-- What one action of a process can do. Every invariant of the later modules
-- goes through the cases given here.
import ZookZhubei.Deployment

namespace ZookZhubei

/-- Every request that a process with this configuration can send. -/
def Config.ops (c : Config) : List Op :=
  [.create c.master_path c.master_data, .get c.master_path, .exist zhuPath,
    .delete c.master_path, .create c.presencePath c.zk_node_data]

/-- A process creates its master node and its presence node. -/
theorem Config.create_mem_ops {c : Config} {q d : Str} :
    .create q d ∈ c.ops ↔
      (q = c.master_path ∧ d = c.master_data) ∨ (q = c.presencePath ∧ d = c.zk_node_data) := by
  simp [Config.ops]

/-- A process deletes its master node only. -/
theorem Config.delete_mem_ops {c : Config} {q : Str} :
    .delete q ∈ c.ops ↔ q = c.master_path := by
  simp [Config.ops]

namespace Inst

variable {c : Config} {now : Int} {x x' : Inst} {a : Act} {t : Thread} {op : Op}

theorem op_mem (h : x.op c t = some op) : op ∈ c.ops := by
  cases t with
  | main =>
    simp only [Inst.op] at h
    split at h
    · rename_i k _ _
      cases h
      cases k <;> simp [Call.op, Config.ops]
    · cases h
  | completion =>
    simp only [Inst.op] at h
    split at h
    · cases h
      simp [Config.ops]
    · cases h

@[simp] theorem setPhase_h (x : Inst) (ph : Phase) (t : Thread) : (x.setPhase ph t).h = x.h := by
  cases t <;> simp only [Inst.setPhase] <;> split <;> rfl

theorem setPhase_stop (x : Inst) (ph : Phase) (t : Thread) :
    (x.setPhase ph t).stop = x.stop := by
  cases t <;> simp only [Inst.setPhase] <;> split <;> rfl

/-- A request on the wire is one of the process, in its current session. -/
theorem orphans_mem {s : Session} (h : (s, op) ∈ x.orphans c) :
    x.h.client_id = some s ∧ ∃ t, x.phase t = some .sent ∧ x.op c t = some op := by
  unfold Inst.orphans at h
  split at h
  · cases h
  · rename_i s' hs
    simp only [List.mem_filterMap] at h
    obtain ⟨t, _, ht⟩ := h
    split at ht
    · rename_i hp
      simp only [Option.map_eq_some_iff, Prod.mk.injEq] at ht
      obtain ⟨op', ho, rfl, rfl⟩ := ht
      exact ⟨hs, t, hp, ho⟩
    · cases ht

/-! ## The statements of the main thread -/

/-- Every branch of `run` and `work`, with its guard. -/
inductive Flow (c : Config) (now : Int) (x : Inst) : Pc → Prop
  | stops : x.pc = .head → x.stop = true → Flow c now x .returned
  | races : x.pc = .head → x.stop = false → Flow c now x (.call .race .entry)
  | checked (k : Call) : x.pc = .call k .entry →
      Request_path_init x.h.state (k.op c).path = ZOK → Flow c now x (.call k .checked)
  | queued (k : Call) : x.pc = .call k .checked → Flow c now x (.call k .queued)
  | refused (k : Call) (rc : Int) : x.pc = .call k .entry → rc ≠ ZOK →
      Request_path_init x.h.state (k.op c).path = rc → Flow c now x (.call k (.returned (.err rc)))
  | won (r : Reply) : x.pc = .call .race (.returned r) → r.rc = ZOK → Flow c now x (.work .raced)
  | blocked (r : Reply) : x.pc = .call .race (.returned r) → r.rc = ZNODEEXISTS →
      Flow c now x (.call (.read r.seen) .entry)
  | failed (r : Reply) : x.pc = .call .race (.returned r) → r.rc ≠ ZOK → r.rc ≠ ZNODEEXISTS →
      Flow c now x (.failed r.rc)
  | resumed (b : Option Znode) (r : Reply) : x.pc = .call (.read b) (.returned r) → r.rc = ZOK →
      r.data = some zk_1 → Flow c now x (.work .resumed)
  | standby (b : Option Znode) (r : Reply) (d : Str) : x.pc = .call (.read b) (.returned r) →
      r.rc = ZOK → r.data = some d → d ≠ zk_1 → Flow c now x (.standby b)
  | unread (b : Option Znode) (r : Reply) (e : Exn) : x.pc = .call (.read b) (.returned r) →
      (r.rc = ZOK → r.data = none) → (e = .length_error ∨ e = getFailed c.master_path r.rc) →
      Flow c now x (.threw e)
  | zhu (via : Via) (r : Reply) : x.pc = .call (.exist via) (.returned r) → r.rc ≠ ZNONODE →
      Flow c now x (.check via r)
  | noZhu (via : Via) (r : Reply) : x.pc = .call (.exist via) (.returned r) → r.rc = ZNONODE →
      Flow c now x (.idle via)
  | deleted (via : Via) (zhu r : Reply) : x.pc = .call (.delete via zhu) (.returned r) →
      r.rc = ZOK → Flow c now x (.yielded via)
  | undeleted (via : Via) (zhu r : Reply) : x.pc = .call (.delete via zhu) (.returned r) →
      r.rc ≠ ZOK → Flow c now x (.threw (deleteFailed c.master_path r.rc))
  | gone (rc : Int) : x.pc = .failed rc → goneCode rc = true → Flow c now x .recreate
  | retries (rc : Int) : x.pc = .failed rc → goneCode rc = false → Flow c now x .pause
  | waits (b : Option Znode) : x.pc = .standby b → Flow c now x .pause
  | again : x.pc = .pause → Flow c now x .head
  | looks (via : Via) : x.pc = .work via → x.stop = false → x.expired now = false →
      Flow c now x (.call (.exist via) .entry)
  | leaves : x.pc = .work .raced → (x.stop = true ∨ x.expired now = true) → Flow c now x .head
  | leavesResumed : x.pc = .work .resumed → (x.stop = true ∨ x.expired now = true) →
      Flow c now x .pause
  | yields (via : Via) (zhu : Reply) : x.pc = .check via zhu → x.h.state = .connected →
      Flow c now x (.call (.delete via zhu) .entry)
  | stays (via : Via) (zhu : Reply) : x.pc = .check via zhu → x.h.state ≠ .connected →
      Flow c now x (.idle via)
  | slept (via : Via) : x.pc = .idle via → Flow c now x (.work via)
  | yielded : x.pc = .yielded .raced → Flow c now x .head
  | yieldedResumed : x.pc = .yielded .resumed → Flow c now x .pause

theorem resume_flow {k : Call} {r : Reply} (hpc : x.pc = .call k (.returned r)) :
    Flow c now x (resume c k r) := by
  cases k with
  | race =>
    simp only [resume, race_master]
    by_cases hr : r.rc = ZOK
    · simp only [hr, if_true]
      exact .won r hpc hr
    · by_cases he : r.rc = ZNODEEXISTS
      · simp only [if_neg hr, Bool.false_eq_true, if_false]
        rw [if_pos (by simpa [node_exists_exception] using he)]
        exact .blocked r hpc he
      · simp only [if_neg hr, Bool.false_eq_true, if_false]
        rw [if_neg (by simpa [node_exists_exception] using he)]
        exact .failed r hpc hr he
  | read b =>
    by_cases hr : r.rc = ZOK
    · cases hd : r.data with
      | none =>
        rw [resume_read_null hr hd]
        exact .unread b r _ hpc (fun _ => hd) (Or.inl rfl)
      | some d =>
        rw [resume_read_some hr hd]
        split
        · rename_i hz
          exact .resumed b r hpc hr (hz ▸ hd)
        · rename_i hz
          exact .standby b r d hpc hr hd hz
    · rw [resume_read_error hr]
      exact .unread b r _ hpc (fun h => absurd h hr) (Or.inr rfl)
  | exist via =>
    simp only [resume]
    split
    · rename_i hr
      exact .zhu via r hpc (by simpa [is_zhu_exist] using hr)
    · rename_i hr
      exact .noZhu via r hpc (by simpa [is_zhu_exist] using hr)
  | delete via zhu =>
    by_cases hr : r.rc = ZOK
    · have he : resume c (.delete via zhu) r = .yielded via := by simp [resume, delete_node, hr]
      rw [he]
      exact .deleted via zhu r hpc hr
    · rw [resume_delete_error hr]
      exact .undeleted via zhu r hpc hr

theorem next_flow {pc : Pc} (h : x.next c now = some pc) : Flow c now x pc := by
  unfold Inst.next at h
  split at h
  · rename_i hpc
    cases h
    split
    · rename_i hs
      exact .stops hpc hs
    · rename_i hs
      exact .races hpc (by simpa using hs)
  · rename_i k hpc
    cases h
    by_cases hr : Request_path_init x.h.state (k.op c).path = ZOK
    · rw [enter_of_ok hr]
      exact .checked k hpc hr
    · rw [enter_of_ne hr]
      exact .refused k _ hpc hr rfl
  · rename_i k hpc
    cases h
    exact .queued k hpc
  · rename_i k r hpc
    cases h
    exact resume_flow hpc
  · rename_i rc hpc
    cases h
    split
    · rename_i hr
      exact .gone rc hpc hr
    · rename_i hr
      exact .retries rc hpc (by simpa using hr)
  · rename_i b hpc
    cases h
    exact .waits b hpc
  · rename_i hpc
    cases h
    exact .again hpc
  · rename_i via hpc
    cases h
    split
    · rename_i hs
      simp only [Bool.and_eq_true, Bool.not_eq_true'] at hs
      exact .looks via hpc hs.1 hs.2
    · rename_i hs
      have hor : x.stop = true ∨ x.expired now = true := by
        simp only [Bool.and_eq_true, Bool.not_eq_true', not_and, Bool.not_eq_false] at hs
        cases hst : x.stop with
        | true => exact Or.inl rfl
        | false => exact Or.inr (hs hst)
      cases via with
      | raced => exact .leaves hpc hor
      | resumed => exact .leavesResumed hpc hor
  · rename_i via zhu hpc
    cases h
    split
    · rename_i hs
      exact .yields via zhu hpc (by simpa [is_connected] using hs)
    · rename_i hs
      exact .stays via zhu hpc (by simpa [is_connected] using hs)
  · rename_i via hpc
    cases h
    exact .slept via hpc
  · rename_i via hpc
    cases h
    cases via with
    | raced => exact .yielded hpc
    | resumed => exact .yieldedResumed hpc
  all_goals cases h

/-! ## The parts that an action leaves alone -/

/-- A statement of the main thread moves only the main thread. -/
theorem main_eq (h : x.main c now = some x') :
    ∃ pc, x.next c now = some pc ∧ x' = { x with pc } := by
  simp only [Inst.main, Option.map_eq_some_iff] at h
  obtain ⟨pc, hp, rfl⟩ := h
  exact ⟨pc, hp, rfl⟩

/-- The completion thread leaves the main thread and the session alone. -/
theorem completion_frame (h : x.completion c now = some x') :
    x'.pc = x.pc ∧ x'.stop = x.stop ∧ x'.h.state = x.h.state ∧ x'.h.client_id = x.h.client_id ∧
      x'.h.recv_timeout = x.h.recv_timeout := by
  unfold Inst.completion at h
  split at h
  · split at h <;> cases h <;> exact ⟨rfl, rfl, rfl, rfl, rfl⟩
  · cases h
    exact ⟨rfl, rfl, rfl, rfl, rfl⟩
  · cases h
    exact ⟨rfl, rfl, rfl, rfl, rfl⟩
  · split at h <;> cases h <;> exact ⟨rfl, rfl, rfl, rfl, rfl⟩
  · cases h

theorem send_eq (h : x.send t = some x') :
    x.phase t = some .queued ∧ x.h.state = .connected ∧ x' = x.setPhase .sent t := by
  unfold Inst.send at h
  split at h
  · rename_i hs
    cases h
    exact ⟨hs.1, hs.2, rfl⟩
  · cases h

theorem receive_eq (h : x.receive t = some x') :
    ∃ r, x.phase t = some (.replied r) ∧ x.h.state = .connected ∧
      x' = x.setPhase (.returned r) t := by
  unfold Inst.receive at h
  split at h
  · rename_i r hp
    split at h
    · rename_i hs
      cases h
      exact ⟨r, hp, hs, rfl⟩
    · cases h
  · cases h

theorem loss_eq {rc : Int} (h : x.loss rc = some x') :
    rc ∈ lossCodes ∧ is_unrecoverable x.h.state = false ∧
      x' = { x with h := x.h.cleanup, pc := x.pc.abort rc, cb := x.cb.abort rc, reg := .off } := by
  unfold Inst.loss at h
  split at h
  · rename_i hs
    cases h
    exact ⟨hs.1, hs.2, rfl⟩
  · cases h

theorem dial_eq (h : x.step c now .dial = some x') :
    (x.h.state = .closed ∨ x.h.state = .notConnected) ∧
      x' = { x with h := { x.h with state := .connecting } } := by
  simp only [Inst.step, Handle.dial, Option.map_eq_some_iff] at h
  obtain ⟨h', hh, rfl⟩ := h
  split at hh
  · rename_i hs
    cases hh
    exact ⟨hs, rfl⟩
  · cases hh

theorem prime_eq (h : x.step c now .prime = some x') :
    x.h.state = .connecting ∧ x' = { x with h := { x.h with state := .associating } } := by
  simp only [Inst.step, Handle.prime, Option.map_eq_some_iff] at h
  obtain ⟨h', hh, rfl⟩ := h
  split at hh
  · rename_i hs
    cases hh
    exact ⟨hs, rfl⟩
  · cases hh

theorem recreate_eq {init : Option (Int × Str)} (h : x.recreate c init = some x') :
    x.pc = .recreate ∧
      ((init = none ∧
        x' = { x with pc := .pause, h := zookeeper_init (c.session_timeout_seconds * 1000),
                      cb := .idle, reg := .off }) ∨
      ∃ errno text, init = some (errno, text) ∧
        x' = { x with pc := .threw (reconnectFailed c.zk_nodes errno text), h := .null,
                      cb := .idle, reg := .off }) := by
  unfold Inst.recreate at h
  split at h
  · rename_i hp
    refine ⟨hp, ?_⟩
    split at h
    · cases h
      exact Or.inl ⟨rfl, rfl⟩
    · rename_i errno text
      cases h
      exact Or.inr ⟨errno, text, rfl, rfl⟩
  · cases h

theorem phase_main {ph : Phase} (h : x.phase .main = some ph) : ∃ k, x.pc = .call k ph := by
  simp only [Inst.phase] at h
  split at h
  · rename_i k ph' hpc
    cases h
    exact ⟨k, hpc⟩
  · cases h

theorem setPhase_main {k : Call} {ph : Phase} (ph' : Phase) (h : x.pc = .call k ph) :
    x.setPhase ph' .main = { x with pc := .call k ph' } := by
  simp [Inst.setPhase, h]

@[simp] theorem setPhase_completion_pc (x : Inst) (ph : Phase) :
    (x.setPhase ph .completion).pc = x.pc := by
  simp only [Inst.setPhase]
  split <;> rfl

/-- An abort leaves the main thread in its call. -/
theorem abort_call {pc : Pc} {k : Call} {ph : Phase} {rc : Int} (h : pc.abort rc = .call k ph) :
    ∃ ph', pc = .call k ph' := by
  cases pc with
  | call k' ph' =>
    cases h
    exact ⟨ph', rfl⟩
  | _ => cases h

/-! ## The cases of an action -/

/-- The handle keeps its state, or both states can be used. -/
def KeepsState (h h' : Handle) : Prop :=
  h'.state = h.state ∨ (is_unrecoverable h.state = false ∧ is_unrecoverable h'.state = false)

/-- What an action does to the main thread and to the session. -/
inductive Moves (c : Config) (now : Int) (x x' : Inst) : Act → Prop
  /-- a statement of `run` or `work` -/
  | ran (pc : Pc) : x.next c now = some pc → x' = { x with pc } → Moves c now x x' .main
  /-- the main thread stays where it is -/
  | kept (a : Act) : a.drops = false → x'.pc = x.pc → x'.h.client_id = x.h.client_id →
      KeepsState x.h x'.h → Moves c now x x' a
  /-- the request of the main thread goes out -/
  | sent (k : Call) : x.pc = .call k .queued → x' = { x with pc := .call k .sent } →
      Moves c now x x' (.send .main)
  /-- the main thread has its answer -/
  | received (k : Call) (r : Reply) : x.pc = .call k (.replied r) →
      x' = { x with pc := .call k (.returned r) } → Moves c now x x' (.receive .main)
  /-- the connection is lost -/
  | lost (rc : Int) : rc ∈ lossCodes → x'.pc = x.pc.abort rc →
      x'.h.client_id = x.h.client_id → KeepsState x.h x'.h → Moves c now x x' (.loss rc)
  /-- a new handle, or none -/
  | recreated (init : Option (Int × Str)) : x.pc = .recreate →
      x'.h.client_id = none → is_unrecoverable x'.h.state = false →
      (x'.pc = .pause ∨ ∃ e, x'.pc = .threw e) → Moves c now x x' (.recreate init)
  /-- a new process -/
  | restarted : x' = Inst.fresh c → Moves c now x x' .restart

theorem step_moves (h : x.step c now a = some x') : Moves c now x x' a := by
  cases a with
  | main =>
    obtain ⟨pc, hn, rfl⟩ := main_eq h
    exact .ran pc hn rfl
  | recreate init =>
    obtain ⟨hp, ⟨rfl, rfl⟩ | ⟨errno, text, rfl, rfl⟩⟩ := recreate_eq h
    · exact .recreated none hp rfl rfl (Or.inl rfl)
    · exact .recreated _ hp rfl rfl (Or.inr ⟨_, rfl⟩)
  | stop =>
    cases h
    exact .kept _ rfl rfl rfl (Or.inl rfl)
  | completion =>
    obtain ⟨h1, _, h3, h4, _⟩ := completion_frame h
    exact .kept _ rfl h1 h4 (Or.inl h3)
  | dial =>
    obtain ⟨hs, rfl⟩ := dial_eq h
    refine .kept _ rfl rfl rfl (Or.inr ⟨?_, rfl⟩)
    rcases hs with hs | hs <;> rw [hs] <;> rfl
  | prime =>
    obtain ⟨hs, rfl⟩ := prime_eq h
    exact .kept _ rfl rfl rfl (Or.inr ⟨by rw [hs]; rfl, rfl⟩)
  | loss rc =>
    obtain ⟨hrc, hs, rfl⟩ := loss_eq h
    refine .lost rc hrc rfl (Handle.cleanup_client_id _) (Or.inr ⟨hs, ?_⟩)
    rw [Handle.cleanup_recoverable hs]
    rfl
  | send t =>
    obtain ⟨hp, _, rfl⟩ := send_eq h
    cases t with
    | main =>
      obtain ⟨k, hk⟩ := phase_main hp
      exact .sent k hk (setPhase_main _ hk)
    | completion =>
      exact .kept _ rfl (setPhase_completion_pc _ _) (by rw [setPhase_h])
        (Or.inl (by rw [setPhase_h]))
  | receive t =>
    obtain ⟨r, hp, _, rfl⟩ := receive_eq h
    cases t with
    | main =>
      obtain ⟨k, hk⟩ := phase_main hp
      exact .received k r hk (setPhase_main _ hk)
    | completion =>
      exact .kept _ rfl (setPhase_completion_pc _ _) (by rw [setPhase_h])
        (Or.inl (by rw [setPhase_h]))
  | restart =>
    cases h
    exact .restarted rfl

/-- A process keeps its session, or forgets it with its handle. -/
theorem step_client_id (h : x.step c now a = some x') :
    x'.h.client_id = x.h.client_id ∨
      (x'.h.client_id = none ∧ (a = .restart ∨ ∃ init, a = .recreate init)) := by
  cases step_moves h with
  | ran pc _ hx => exact Or.inl (by rw [hx])
  | kept _ _ _ hc _ => exact Or.inl hc
  | sent k _ hx => exact Or.inl (by rw [hx])
  | received k r _ hx => exact Or.inl (by rw [hx])
  | lost rc _ _ hc _ => exact Or.inl hc
  | recreated init _ hc _ _ => exact Or.inr ⟨hc, Or.inr ⟨init, rfl⟩⟩
  | restarted hx => exact Or.inr ⟨by rw [hx]; rfl, Or.inl rfl⟩

end Inst

end ZookZhubei
