-- The registration of a process. The callback of a new connection creates
-- the presence node, and takes every failure for a node that is already its
-- own. That is right when no session of an earlier life is still alive, the
-- server refuses no create, and nobody else makes a node there.
import ZookZhubei.Sessions

namespace ZookZhubei

open Runs

/-! ## The callback -/

/-- The latest callback has its answer, and no connection was lost since it
began. -/
def Inst.registered (x : Inst) : Bool :=
  match x.reg, x.cb with
  | .done, _ => true
  | .running, .call (.replied _) | .running, .call (.returned _) => true
  | _, _ => false

/-- Without a session there has been no connection, and no callback. -/
def Inst.Blank (x : Inst) : Prop :=
  x.h.client_id = none → ZooState.connected ∉ x.h.events ∧ x.reg = .off

namespace Inst

variable {c : Config} {now : Int} {x x' : Inst} {a : Act}

@[simp] theorem setPhase_reg (x : Inst) (ph : Phase) (t : Thread) :
    (x.setPhase ph t).reg = x.reg := by
  cases t <;> simp only [Inst.setPhase] <;> split <;> rfl

@[simp] theorem setPhase_main_cb (x : Inst) (ph : Phase) : (x.setPhase ph .main).cb = x.cb := by
  simp only [Inst.setPhase]
  split <;> rfl

theorem phase_completion {ph : Phase} (h : x.phase .completion = some ph) : x.cb = .call ph := by
  simp only [Inst.phase] at h
  split at h
  · rename_i ph' hcb
    cases h
    exact hcb
  · cases h

theorem setPhase_completion {ph : Phase} (ph' : Phase) (h : x.cb = .call ph) :
    x.setPhase ph' .completion = { x with cb := .call ph' } := by
  simp [Inst.setPhase, h]

theorem cleanup_connected {h : Handle} (hn : ZooState.connected ∉ h.events) :
    ZooState.connected ∉ h.cleanup.events := by
  unfold Handle.cleanup
  split_ifs with hu
  · intro hm
    rcases List.mem_append.mp hm with hm | hm
    · exact hn hm
    · rw [List.mem_singleton] at hm
      rw [← hm] at hu
      cases hu
  · simpa using hn
  · exact hn

theorem completion_blank (hb : x.Blank) (h : x.completion c now = some x') : x'.Blank := by
  intro hn
  rw [(completion_frame h).2.2.2.1] at hn
  obtain ⟨hev, hreg⟩ := hb hn
  unfold Inst.completion at h
  split at h
  · split at h
    · cases h
    · rename_i es he
      rw [he] at hev
      simp at hev
    · rename_i es he
      cases h
      rw [he] at hev
      exact ⟨fun hm => hev (List.mem_cons_of_mem _ hm), hreg⟩
    · rename_i e es _ _ he
      cases h
      rw [he] at hev
      exact ⟨fun hm => hev (List.mem_cons_of_mem _ hm), hreg⟩
  · cases h
    exact ⟨hev, hreg⟩
  · cases h
    exact ⟨hev, hreg⟩
  · split at h <;> cases h <;> exact ⟨hev, by simp [hreg]⟩
  · cases h

theorem step_blank (hb : x.Blank) (h : x.step c now a = some x') : x'.Blank := by
  cases a with
  | main =>
    obtain ⟨pc, _, rfl⟩ := main_eq h
    exact hb
  | recreate init =>
    obtain ⟨_, ⟨_, rfl⟩ | ⟨_, _, _, rfl⟩⟩ := recreate_eq h
    · exact fun _ => ⟨by simp [zookeeper_init], rfl⟩
    · exact fun _ => ⟨by simp [Handle.null], rfl⟩
  | stop =>
    cases h
    exact hb
  | completion => exact completion_blank hb h
  | dial =>
    obtain ⟨_, rfl⟩ := dial_eq h
    exact hb
  | prime =>
    obtain ⟨_, rfl⟩ := prime_eq h
    exact hb
  | loss rc =>
    obtain ⟨_, _, rfl⟩ := loss_eq h
    intro hn
    exact ⟨cleanup_connected (hb (by simpa using hn)).1, rfl⟩
  | send t =>
    obtain ⟨_, _, rfl⟩ := send_eq h
    simpa [Inst.Blank] using hb
  | receive t =>
    obtain ⟨r, _, _, rfl⟩ := receive_eq h
    simpa [Inst.Blank] using hb
  | restart =>
    cases h
    exact fun _ => ⟨by simp [Inst.fresh, zookeeper_init], rfl⟩

/-- The completion thread counts a process as registered only on the word of
the server, or on a dead handle. -/
theorem completion_registered (hv : isValidPath false c.presencePath = true)
    (h : x.completion c now = some x') (hr : x'.registered = true) :
    x.registered = true ∨ is_unrecoverable x.h.state = true := by
  unfold Inst.completion at h
  split at h
  · rename_i hcb
    split at h
    · cases h
    · cases h
      cases hr
    all_goals
      cases h
      left
      revert hr
      simp only [Inst.registered, hcb]
      exact id
  · rename_i hcb
    cases h
    cases hreg : x.reg with
    | off => simp [Inst.registered, hreg] at hr
    | done => exact Or.inl (by simp [Inst.registered, hreg])
    | running =>
      -- a valid path is refused on a dead handle only
      right
      by_contra hu
      have hq : enter x.h c.presencePath = .checked := by
        simp [enter, Request_path_init, hv, hu]
      simp [Inst.registered, hreg, hq] at hr
  · rename_i hcb
    cases h
    left
    cases hreg : x.reg <;> simp [Inst.registered, hreg] at hr ⊢
  · rename_i r hcb
    left
    split at h <;> cases h <;> cases hreg : x.reg <;>
      simp [Inst.registered, hcb, hreg] at hr ⊢
  · cases h

theorem step_registered (hv : isValidPath false c.presencePath = true)
    (h : x.step c now a = some x') (hr : x'.registered = true) :
    (x.registered = true ∨ is_unrecoverable x.h.state = true) ∧
      x'.h.client_id = x.h.client_id := by
  cases a with
  | main =>
    obtain ⟨pc, _, rfl⟩ := main_eq h
    exact ⟨Or.inl hr, rfl⟩
  | recreate init =>
    obtain ⟨_, ⟨_, rfl⟩ | ⟨_, _, _, rfl⟩⟩ := recreate_eq h
    · cases hr
    · cases hr
  | stop =>
    cases h
    exact ⟨Or.inl hr, rfl⟩
  | completion => exact ⟨completion_registered hv h hr, (completion_frame h).2.2.2.1⟩
  | dial =>
    obtain ⟨_, rfl⟩ := dial_eq h
    exact ⟨Or.inl hr, rfl⟩
  | prime =>
    obtain ⟨_, rfl⟩ := prime_eq h
    exact ⟨Or.inl hr, rfl⟩
  | loss rc =>
    obtain ⟨_, _, rfl⟩ := loss_eq h
    cases hr
  | send t =>
    obtain ⟨hp, _, rfl⟩ := send_eq h
    refine ⟨Or.inl ?_, by simp⟩
    cases t with
    | main => simpa [Inst.registered] using hr
    | completion =>
      rw [setPhase_completion _ (phase_completion hp)] at hr
      cases hreg : x.reg <;> simp [Inst.registered, hreg] at hr ⊢
  | receive t =>
    obtain ⟨r, hp, _, rfl⟩ := receive_eq h
    refine ⟨Or.inl ?_, by simp⟩
    cases t with
    | main => simpa [Inst.registered] using hr
    | completion =>
      have hcb := phase_completion hp
      rw [setPhase_completion _ hcb] at hr
      cases hreg : x.reg <;> simp [Inst.registered, hreg, hcb] at hr ⊢
  | restart =>
    cases h
    cases hr

end Inst

/-! ## Every deployment -/

namespace World

variable {ι : Type} {cfg : ι → Config} {w w' : World ι} {l : Label ι} {i : ι}

/-- The presence path of `i` is a path that the client takes, not the root, and
no process uses it for anything else. -/
structure OwnPlace (cfg : ι → Config) (i : ι) : Prop where
  valid : isValidPath false (cfg i).presencePath = true
  notRoot : (cfg i).presencePath ≠ rootPath
  alone : ∀ j, j ≠ i → (cfg j).presencePath ≠ (cfg i).presencePath
  notMaster : ∀ j, (cfg j).master_path ≠ (cfg i).presencePath

/-- `i` starts anew only when its session has ended, the server does not refuse
the create of its callback, and no other client makes a node at its presence
path. -/
def RegistersAlone (cfg : ι → Config) (i : ι) (w : World ι) (l : Label ι) : Prop :=
  RestartsLate i w l ∧ l.refuses ≠ some (i, .completion) ∧
    LeavesAlone (cfg i).presencePath (fun _ => True) l

/-- Nobody deletes the presence node. -/
theorem OwnPlace.not_deleted (hp : OwnPlace cfg i) {j : ι} {op : Op} (h : op ∈ (cfg j).ops) :
    op ≠ .delete (cfg i).presencePath := by
  rintro rfl
  exact hp.notMaster j (Config.delete_mem_ops.mp h).symm

/-- A presence node is one of the current session. -/
theorem OwnPlace.owner (hp : OwnPlace cfg i) (ht : Traced cfg w) (ho : OneSession i w)
    (he : Ephemeral (cfg i).presencePath (fun _ => True) w) {n : Znode}
    (hn : w.srv.nodes (cfg i).presencePath = some n) :
    ∃ s, n.owner = some s ∧ (w.inst i).h.client_id = some s := by
  obtain ⟨s, hs⟩ := Option.ne_none_iff_exists'.mp (he n hn trivial)
  obtain ⟨j, hj, hop⟩ := ht.node_writer _ n s hn hs
  have hij : j = i := by
    by_contra hij
    rcases Config.create_mem_ops.mp hop with ⟨h1, _⟩ | ⟨h1, _⟩
    · exact hp.notMaster j h1.symm
    · exact hp.alone j hij h1.symm
  subst hij
  exact ⟨s, hs, ho s hj (ht.node_live _ n s hn hs)⟩

/-- A process that counts as registered has its presence node, as long as its
session lives. -/
def Present (cfg : ι → Config) (i : ι) (w : World ι) : Prop :=
  (w.inst i).registered = true → ∀ s, (w.inst i).h.client_id = some s → w.srv.live s = true →
    w.srv.Owns (cfg i).presencePath s

theorem Present.apply (h : Present cfg i w) (hp : OwnPlace cfg i) {j : ι} {s : Session} {op : Op}
    (hop : op ∈ (cfg j).ops) : Present cfg i { w with srv := (w.srv.apply s op).1 } := by
  intro hr u hu hl
  rw [Server.apply_live] at hl
  exact (h hr u hu hl).apply fun hd => absurd hd (hp.not_deleted hop)

variable [DecidableEq ι]

instance (cfg : ι → Config) (i : ι) (w : World ι) (l : Label ι) :
    Decidable (RegistersAlone cfg i w l) :=
  inferInstanceAs (Decidable (RestartsLate i w l ∧ l.refuses ≠ some (i, .completion) ∧
    LeavesAlone _ (fun _ => True) l))

theorem reach_blank (h : (system cfg).Reach w) (i : ι) : (w.inst i).Blank := by
  apply reach_inst (P := Inst.Blank) _ _ _ _ _ h
  · exact fun _ => ⟨by simp [Inst.fresh, zookeeper_init], rfl⟩
  · intro now x a x' hb hs
    exact Inst.step_blank hb hs
  · intro x s timeOut _ _ hn
    cases hn
  · intro x hb _ hn
    exact ⟨Inst.cleanup_connected (hb hn).1, rfl⟩
  · intro x t r hb _
    simpa [Inst.Blank] using hb

theorem Present.keeps (h : Present cfg i w) {j : ι} {x' : Inst}
    (hx : x'.registered = true →
      (w.inst j).registered = true ∧ x'.h.client_id = (w.inst j).h.client_id) :
    Present cfg i (w.setInst j x') := by
  intro hr s hs hl
  have hback : x'.registered = true ∧ x'.h.client_id = some s →
      (w.inst j).registered = true ∧ (w.inst j).h.client_id = some s := by
    rintro ⟨h1, h2⟩
    obtain ⟨h3, h4⟩ := hx h1
    exact ⟨h3, h4 ▸ h2⟩
  obtain ⟨h1, h2⟩ := inst_of_setInst w
    (Q := fun x => x.registered = true ∧ x.h.client_id = some s) ⟨hr, hs⟩ hback
  exact h h1 s h2 hl

/-- The create of a live session leaves a node, and it can only be its own. -/
theorem Present.served (h : Present cfg i w) (hp : OwnPlace cfg i) (ht' : Traced cfg w')
    (ho' : OneSession i w') (he' : Ephemeral (cfg i).presencePath (fun _ => True) w') {j : ι}
    {t : Thread} {s : Session} {op : Op}
    (hph : (w.inst j).phase t = some .sent) (hc : (w.inst j).h.client_id = some s)
    (hop : (w.inst j).op (cfg j) t = some op)
    (he : w' = { w.setInst j ((w.inst j).setPhase (.replied (w.srv.apply s op).2) t) with
      srv := (w.srv.apply s op).1 }) : Present cfg i w' := by
  have h1 := h.apply hp (s := s) (Inst.op_mem hop)
  by_cases hij : j = i ∧ t = .completion
  · obtain ⟨rfl, rfl⟩ := hij
    intro _ u hu hl
    subst he
    simp only [setInst_self, Inst.setPhase_h] at hu
    rw [hc] at hu
    cases hu
    rw [Server.apply_live] at hl
    simp only [Inst.op, Inst.phase_completion hph, Option.some.injEq] at hop
    subst hop
    obtain ⟨n, hn⟩ := Server.apply_create_exists (cfg j).presencePath (cfg j).zk_node_data hl
    obtain ⟨u, hu, hown⟩ := hp.owner ht' ho' he' hn
    simp only [setInst_self, Inst.setPhase_h] at hown
    rw [hc] at hown
    cases hown
    exact ⟨n, hn, hu⟩
  · subst he
    intro hr u hu hl
    by_cases hji : i = j
    · subst hji
      cases t with
      | completion => exact absurd ⟨rfl, rfl⟩ hij
      | main =>
        simp only [setInst_self, Inst.setPhase_h] at hr hu
        exact h1 (by simpa [Inst.registered] using hr) u hu hl
    · simp only [setInst_ne w _ hji] at hr hu
      exact h1 hr u hu hl

theorem present_step (ht : Traced cfg w) (hret : Retired w) (hb : (w.inst i).Blank)
    (ho : OneSession i w) (he : Ephemeral (cfg i).presencePath (fun _ => True) w)
    (hp : OwnPlace cfg i) (h : Present cfg i w) (hg : RegistersAlone cfg i w l)
    (hs : w.step cfg l = some w') : Present cfg i w' := by
  have ht' := traced_step ht hs
  have ho' := oneSession_step hret ho hg.1 hs
  have he' := ephemeral_step he hg.2.2 hs
  cases step_trans hs with
  | act j a x' hx =>
    intro hr s hs hl
    by_cases hij : i = j
    · subst hij
      simp only [setInst_self] at hr hs
      obtain ⟨hreg | hu, hc⟩ := Inst.step_registered hp.valid hx hr
      · exact h hreg s (hc ▸ hs) hl
      · -- the handle is dead, and its session with it
        obtain ⟨s', hs', hl'⟩ := hret i (Or.inr hu)
        rw [hc, hs'] at hs
        cases hs
        rw [setInst_srv] at hl
        rw [hl'] at hl
        cases hl
    · simp only [setInst_ne w x' hij] at hr hs
      exact h hr s hs hl
  | opened j timeOut hst hn =>
    intro hr s hs hl
    by_cases hij : i = j
    · subst hij
      simp only [setInst_self] at hr
      simp [Inst.registered, (hb hn).2] at hr
    · simp only [setInst_ne w _ hij] at hr hs
      rw [Server.openSession_live (ht.client_ne_next hs)] at hl
      exact h hr s hs hl
  | reattached j timeOut s hst hc hl => exact h.keeps fun hr => ⟨hr, hc.symm⟩
  | expired j timeOut s hst hc hl => exact h.keeps fun hr => by cases hr
  | served j t s op hph hc hop => exact h.served hp ht' ho' he' hph hc hop rfl
  | refused j t rc s op hph _ _ _ _ =>
    intro hr u hu hl
    by_cases hij : i = j
    · subst hij
      simp only [setInst_self, Inst.setPhase_h] at hr hu
      cases t with
      | completion => exact absurd rfl hg.2.1
      | main => exact h (by simpa [Inst.registered] using hr) u hu hl
    · simp only [setInst_ne w _ hij] at hr hu
      exact h hr u hu hl
  | late k s op hk =>
    obtain ⟨j, _, hj⟩ := ht.late_writer s op (List.mem_of_getElem? hk)
    exact h.apply hp hj
  | dropped k _ => exact h
  | ended s _ =>
    intro hr u hu hl
    obtain ⟨hne, hl⟩ := Server.expire_live hl
    exact (h hr u hu hl).expire hne
  | edited e v hv =>
    intro hr u hu hl
    simp only [(Server.edit_sessions hv).1] at hl
    exact (h hr u hu hl).edit hv
  | tick n => exact h

theorem reach_present (hp : OwnPlace cfg i)
    (h : (system cfg).ReachBy (RegistersAlone cfg i) w) : Present cfg i w := by
  apply System.ReachBy.invariant_with (P := Present cfg i)
    (Q := fun w => Traced cfg w ∧ Retired w ∧ (w.inst i).Blank ∧ OneSession i w ∧
      Ephemeral (cfg i).presencePath (fun _ => True) w) _ _ _ h
  · intro s hs
    exact ⟨reach_traced hs.reach, reach_retired hs.reach, reach_blank hs.reach i,
      reach_oneSession (hs.mono fun _ _ hg => hg.1),
      reach_ephemeral (fun _ _ hg => hg.2.2) (fun he => absurd he hp.notRoot) hs⟩
  · rintro s ⟨now, rfl⟩ hr
    cases hr
  · rintro s l s' ⟨ht, hret, hb, ho, he⟩ hpr hg hs
    exact present_step ht hret hb ho he hp hpr hg hs

/-- The process is connected in a live session, and its callback is done. -/
def isUp (w : World ι) (i : ι) (s : Session) : Bool :=
  (w.inst i).reg == .done && (w.inst i).h.state == .connected &&
    (w.inst i).h.client_id == some s && w.srv.live s

/-- In every run in which a process starts anew only after its session has
ended, the server refuses no create of its callback, and no other client makes
a node at its presence path, it is registered: once the callback of its
connection is done, its live session owns the presence node. -/
theorem a_connected_process_is_registered (hp : OwnPlace cfg i)
    (h : (system cfg).ReachBy (RegistersAlone cfg i) w) {s : Session} (hup : w.isUp i s = true) :
    w.srv.Owns (cfg i).presencePath s := by
  simp only [isUp, Bool.and_eq_true, beq_iff_eq] at hup
  obtain ⟨⟨⟨hreg, _⟩, hc⟩, hl⟩ := hup
  exact reach_present hp h (by simp [Inst.registered, hreg]) s hc hl

theorem pair_ownPlace : OwnPlace pair false where
  valid := by decide
  notRoot := by decide
  alone := by decide
  notMaster := by decide

set_option maxRecDepth 20000 in
theorem a_connected_process_is_registered_of_registers :
    ∃ w : World Bool, (system pair).ReachBy (RegistersAlone pair false) w ∧ w.isUp false 0 = true ∧
      w.srv.Owns (str "/nodes/test1") 0 := by
  obtain ⟨w, hw, ht⟩ := System.ReachBy.of_run (M := system pair) (G := RegistersAlone pair false)
    (connects false ++ registers false) (fun w => w.isUp false 0)
    (.start ⟨1000, rfl⟩) (by decide)
  exact ⟨w, hw, ht, a_connected_process_is_registered pair_ownPlace hw ht⟩

/-- The process crashes and is started again. Its create fails on the node of
the old session, and the callback takes that for a node of its own. -/
theorem a_new_life_is_not_registered :
    ¬ ∀ (cfg : Bool → Config) (i : Bool),
      (∀ j, j ≠ i → (cfg j).presencePath ≠ (cfg i).presencePath) →
      (∀ j, (cfg j).master_path ≠ (cfg i).presencePath) →
      ∀ w, (system cfg).Reach w → ∀ s, w.isUp i s = true → w.srv.Owns (cfg i).presencePath s := by
  intro h
  obtain ⟨w, hw, ht⟩ := System.Reach.of_run (M := system pair)
    (connects false ++ registers false ++ [.act false .restart] ++ connects false ++
      registers false)
    (fun w => w.isUp false 1 &&
      (w.srv.nodes (str "/nodes/test1")).any fun n => n.owner == some 0) ⟨1000, rfl⟩
    (by set_option maxRecDepth 20000 in decide)
  simp only [Bool.and_eq_true, Option.any_eq_true, beq_iff_eq] at ht
  obtain ⟨hup, n, hn, ho⟩ := ht
  have h0 : w.srv.Owns (str "/nodes/test1") 0 := ⟨n, hn, ho⟩
  have h1 := h pair false (by decide) (by decide) w hw 1 hup
  exact absurd (h0.unique h1) (by decide)

end World

end ZookZhubei
