-- When a process waits for itself. It loses the race to a node of its own
-- session, and reads that node back. Only the data of the node can tell it
-- that the node is its own, and `run` compares it with a fixed text.
import ZookZhubei.Holding
import ZookZhubei.Provenance

namespace ZookZhubei

open Runs

/-! ## The node that lost the race -/

/-- Everything that a process writes at the master path is `zk_1`. -/
def Config.writesZk1 (c : Config) : Prop :=
  c.master_data = zk_1 ∧ (c.presencePath = c.master_path → c.zk_node_data = zk_1)

/-- The node that the last race ran into. -/
def Pc.blocker : Pc → Option Znode
  | .call .race (.replied r) | .call .race (.returned r) => r.seen
  | .call (.read b) _ | .standby b => b
  | _ => none

/-- What `run` has learned, if `n` is at the master path all the time. -/
def Pc.saw (n : Znode) : Pc → Prop
  | .call (.read _) (.replied r) | .call (.read _) (.returned r) =>
    r.rc = ZOK → r.data = some n.data
  | .standby _ => n.data ≠ zk_1
  | _ => True

/-- The places of a process with a path that the client refuses. -/
def Pc.vain : Pc → Bool
  | .head | .call .race .entry | .pause | .returned => true
  | .call .race (.returned r) => r.rc == ZBADARGUMENTS
  | .failed rc => rc == ZBADARGUMENTS
  | _ => false

theorem Pc.abort_vain {pc : Pc} (rc : Int) (h : pc.vain = true) :
    (pc.abort rc).vain = true := by
  unfold Pc.vain at h
  split at h <;> first
    | exact h
    | rfl
    | cases h

namespace Inst

variable {c : Config} {now : Int} {x x' : Inst} {a : Act} {n : Znode}

theorem next_blocker {pc : Pc} (h : x.next c now = some pc) (hb : pc.blocker = some n) :
    x.pc.blocker = some n ∧ (x.pc.saw n → pc.saw n) := by
  cases next_flow h with
  | checked k hpc _ | queued k hpc =>
    rw [hpc]
    cases k with
    | read b => exact ⟨hb, fun _ => trivial⟩
    | _ => cases hb
  | refused k rc hpc hrc _ =>
    rw [hpc]
    cases k with
    | read b => exact ⟨hb, fun _ hr => absurd hr hrc⟩
    | _ => cases hb
  | blocked r hpc _ =>
    rw [hpc]
    exact ⟨hb, fun _ => trivial⟩
  | standby b r d hpc hr hd hz =>
    rw [hpc]
    refine ⟨hb, fun hsaw => ?_⟩
    have hdn := hsaw hr
    rw [hd] at hdn
    cases hdn
    exact hz
  | _ => cases hb

theorem abort_blocker {pc : Pc} {rc : Int} (hrc : rc ≠ ZOK) (hb : (pc.abort rc).blocker = some n) :
    pc.blocker = some n ∧ (pc.saw n → (pc.abort rc).saw n) := by
  cases pc with
  | call k ph =>
    cases ph with
    | entry | checked | returned r => exact ⟨hb, id⟩
    | queued | sent | replied r =>
      cases k with
      | read b => exact ⟨hb, fun _ hr => absurd hr hrc⟩
      | _ => cases hb
  | _ => exact ⟨hb, id⟩

/-- An action of a process brings it no new blocker, and what it has learned
stays right. -/
theorem step_blocker (h : x.step c now a = some x') (hb : x'.pc.blocker = some n) :
    x.pc.blocker = some n ∧ (x.pc.saw n → x'.pc.saw n) := by
  cases step_moves h with
  | ran pc hn hx =>
    subst hx
    exact next_blocker hn hb
  | kept _ _ hpc _ _ =>
    rw [hpc] at hb ⊢
    exact ⟨hb, id⟩
  | sent k hk hx =>
    subst hx
    rw [hk]
    cases k with
    | read b => exact ⟨hb, id⟩
    | _ => cases hb
  | received k r hk hx =>
    subst hx
    rw [hk]
    cases k with
    | race | read b => exact ⟨hb, id⟩
    | _ => cases hb
  | lost rc hrc hpc _ _ =>
    rw [hpc] at hb ⊢
    exact abort_blocker (lossCodes_ne_ok hrc) hb
  | recreated init _ _ _ hpc =>
    rcases hpc with he | ⟨e, he⟩ <;> rw [he] at hb <;> cases hb
  | restarted hx =>
    subst hx
    cases hb

theorem next_vain (hv : isValidPath false c.master_path = false) {pc : Pc}
    (h : x.next c now = some pc) (hp : x.pc.vain = true) : pc.vain = true := by
  -- the client refuses the path before it looks at the handle
  have hreq : Request_path_init x.h.state c.master_path = ZBADARGUMENTS := by
    simp [Request_path_init, hv]
  cases next_flow h with
  | checked k hpc hr =>
    rw [hpc] at hp
    cases k with
    | race =>
      rw [Call.op, Op.path, hreq] at hr
      cases hr
    | _ => cases hp
  | queued k hpc =>
    rw [hpc] at hp
    cases k <;> cases hp
  | refused k rc hpc _ hr =>
    rw [hpc] at hp
    cases k with
    | race =>
      rw [Call.op, Op.path, hreq] at hr
      subst hr
      rfl
    | _ => cases hp
  | won r hpc hr | blocked r hpc hr =>
    rw [hpc] at hp
    simp only [Pc.vain, hr] at hp
    cases hp
  | failed r hpc _ _ =>
    rw [hpc] at hp
    exact hp
  | gone rc hpc hr =>
    rw [hpc] at hp
    simp only [Pc.vain, beq_iff_eq] at hp
    subst hp
    cases hr
  | _ => first
    | rfl
    | simp_all [Pc.vain]

theorem step_vain (hv : isValidPath false c.master_path = false)
    (h : x.step c now a = some x') (hp : x.pc.vain = true) : x'.pc.vain = true := by
  cases step_moves h with
  | ran pc hn hx =>
    subst hx
    exact next_vain hv hn hp
  | kept _ _ hpc _ _ => exact hpc ▸ hp
  | sent k hk _ =>
    rw [hk] at hp
    cases k <;> cases hp
  | received k r hk _ =>
    rw [hk] at hp
    cases k <;> cases hp
  | lost rc _ hpc _ _ => exact hpc ▸ Pc.abort_vain rc hp
  | recreated init hpc _ _ _ =>
    rw [hpc] at hp
    cases hp
  | restarted hx =>
    subst hx
    rfl

end Inst

namespace World

variable {ι : Type} {cfg : ι → Config} {w w' : World ι} {l : Label ι}

/-- Every blocker is older than the nodes to come. So while it is at the master
path it has always been there, and a read that came back has seen it. -/
def Blocked (cfg : ι → Config) (w : World ι) : Prop :=
  ∀ i n, (w.inst i).pc.blocker = some n →
    n.czxid < w.srv.zxid ∧ (w.srv.nodes (cfg i).master_path = some n → (w.inst i).pc.saw n)

theorem Blocked.apply (h : Blocked cfg w) (s : Session) (op : Op) :
    Blocked cfg { w with srv := (w.srv.apply s op).1 } := by
  intro i n hb
  obtain ⟨hz, hsaw⟩ := h i n hb
  refine ⟨Nat.lt_of_lt_of_le hz (Server.apply_zxid_le _ _ _), fun hn => ?_⟩
  rcases Server.apply_nodes_some hn with h1 | ⟨_, _, hz', _, _⟩
  · exact hsaw h1
  · exact absurd hz (by omega)

variable [DecidableEq ι]

theorem Blocked.setInst (h : Blocked cfg w) {i : ι} {x' : Inst}
    (hx : ∀ n, x'.pc.blocker = some n →
      n.czxid < w.srv.zxid ∧ (w.srv.nodes (cfg i).master_path = some n → x'.pc.saw n)) :
    Blocked cfg (w.setInst i x') := by
  intro j n hb
  by_cases hij : j = i
  · subst hij
    simp only [setInst_self] at hb ⊢
    exact hx n hb
  · simp only [setInst_ne w x' hij] at hb ⊢
    exact h j n hb

/-- The same for a change that keeps the blocker. -/
theorem Blocked.keeps (h : Blocked cfg w) {i : ι} {x' : Inst}
    (hx : ∀ n, x'.pc.blocker = some n →
      (w.inst i).pc.blocker = some n ∧ ((w.inst i).pc.saw n → x'.pc.saw n)) :
    Blocked cfg (w.setInst i x') := by
  refine h.setInst fun n hb => ?_
  obtain ⟨h1, h2⟩ := hx n hb
  obtain ⟨h3, h4⟩ := h i n h1
  exact ⟨h3, fun hn => h2 (h4 hn)⟩

theorem Blocked.served (h : Blocked cfg w) (ht : Traced cfg w) {i : ι} {t : Thread} {s : Session}
    {op : Op} (hph : (w.inst i).phase t = some .sent) (hop : (w.inst i).op (cfg i) t = some op) :
    Blocked cfg { w.setInst i ((w.inst i).setPhase (.replied (w.srv.apply s op).2) t) with
      srv := (w.srv.apply s op).1 } := by
  have h1 := h.apply s op
  cases t with
  | completion => exact h1.keeps fun n hb => ⟨by simpa using hb, by simp⟩
  | main =>
    obtain ⟨k, hk⟩ := Inst.phase_main hph
    simp only [Inst.op, hk, Option.some.injEq] at hop
    subst hop
    rw [Inst.setPhase_main _ hk]
    cases k with
    | race =>
      refine h1.setInst fun n hb => ⟨?_, fun _ => trivial⟩
      exact Nat.lt_of_lt_of_le (ht.node_zxid _ n (Server.apply_seen hb))
        (Server.apply_zxid_le _ _ _)
    | read b =>
      refine h1.setInst fun n hb => ⟨(h1 i n (by rw [hk]; exact hb)).1, fun hn hr => ?_⟩
      obtain ⟨_, hv, m, hm, he⟩ := Server.apply_get hr
      rw [Call.op, hv, hm] at hn
      cases hn
      rw [Call.op, he]
    | exist via => exact h1.setInst fun n hb => by cases hb
    | delete via zhu => exact h1.setInst fun n hb => by cases hb

/-- A refusal shows no node. -/
theorem Blocked.refused (h : Blocked cfg w) {i : ι} {t : Thread} {rc : Int} {op : Op}
    (hph : (w.inst i).phase t = some .sent) (hr : op.refusal rc = true) :
    Blocked cfg (w.setInst i ((w.inst i).setPhase (.replied (.err rc)) t)) := by
  refine h.keeps fun n hb => ?_
  cases t with
  | completion => exact ⟨by simpa using hb, by simp⟩
  | main =>
    obtain ⟨k, hk⟩ := Inst.phase_main hph
    rw [Inst.setPhase_main _ hk] at hb ⊢
    rw [hk]
    cases k with
    | read b => exact ⟨hb, fun _ hok => absurd hok (Server.refusal_rc hr).1⟩
    | _ => cases hb

theorem blocked_step (ht : Traced cfg w) (h : Blocked cfg w) (hs : w.step cfg l = some w') :
    Blocked cfg w' := by
  cases step_trans hs with
  | act i a x' hx => exact h.keeps fun n hb => Inst.step_blocker hx hb
  | opened i timeOut _ _ => exact h.keeps fun n hb => ⟨hb, id⟩
  | reattached i timeOut s _ _ _ => exact h.keeps fun n hb => ⟨hb, id⟩
  | expired i timeOut s _ _ _ => exact h.keeps fun n hb => Inst.abort_blocker (by decide) hb
  | served i t s op hph _ ho => exact h.served ht hph ho
  | refused i t rc s op hph _ _ _ hr => exact h.refused hph hr
  | late k s op _ => exact h.apply s op
  | dropped k _ => exact h
  | ended s _ =>
    intro i n hb
    exact ⟨(h i n hb).1, fun hn => (h i n hb).2 (Server.expire_nodes hn).1⟩
  | edited e v he =>
    intro i n hb
    obtain ⟨hz, hsaw⟩ := h i n hb
    refine ⟨Nat.lt_of_lt_of_le hz (Server.edit_sessions he).2.2, fun hn => ?_⟩
    rcases Server.edit_nodes_some he hn with h1 | ⟨_, _, hz', _⟩
    · exact hsaw h1
    · exact absurd hz (by omega)
  | tick n => exact h

theorem reach_blocked (h : (system cfg).Reach w) : Blocked cfg w := by
  apply System.ReachBy.invariant_with (Q := Traced cfg) (P := Blocked cfg) _ _ _ h
  · intro s hs
    exact reach_traced hs
  · rintro s ⟨now, rfl⟩ i n hb
    cases hb
  · intro s l s' ht hb _ hs
    exact blocked_step ht hb hs

/-! ## Waiting for itself -/

/-- The process is in the branch "A master exists", and the node that it lost
the race to is there, in the hands of its own live session. -/
def waitsForItself (cfg : ι → Config) (w : World ι) (i : ι) : Prop :=
  ∃ n s, (w.inst i).pc = .standby (some n) ∧ w.srv.nodes (cfg i).master_path = some n ∧
    n.owner = some s ∧ (w.inst i).h.client_id = some s ∧ w.srv.live s = true

theorem not_waitsForItself (h : (system cfg).Reach w) {i : ι} (hc : (cfg i).writesZk1) :
    ¬ w.waitsForItself cfg i := by
  rintro ⟨n, s, hpc, hn, ho, hs, _⟩
  have hsaw := (reach_blocked h i n (by rw [hpc]; rfl)).2 hn
  rw [hpc] at hsaw
  apply hsaw
  obtain ⟨j, hj, hop⟩ := (reach_traced h).node_writer _ n s hn ho
  rw [(reach_traced h).client i _ hs] at hj
  cases hj
  rcases Config.create_mem_ops.mp hop with ⟨_, hd⟩ | ⟨hp, hd⟩
  · rw [hd]
    exact hc.1
  · rw [hd]
    exact hc.2 hp.symm

/-- The root is nobody's. -/
theorem not_waitsForItself_root (h : (system cfg).Reach w) {i : ι}
    (hp : (cfg i).master_path = rootPath) : ¬ w.waitsForItself cfg i := by
  rintro ⟨n, s, _, hn, ho, _⟩
  obtain ⟨m, hm, hnone⟩ := (reach_traced h).root
  rw [hp, hm] at hn
  cases hn
  rw [hnone] at ho
  cases ho

/-! ## Runs of one process -/

/-- Some run brings the process `i` to `x`, and the server to `v`. -/
def Stands (cfg : ι → Config) (i : ι) (x : Inst) (v : Server) : Prop :=
  ∃ w, (system cfg).Reach w ∧ w.inst i = x ∧ w.srv = v

variable {i : ι} {x : Inst} {v : Server}

theorem Stands.start (cfg : ι → Config) (i : ι) : Stands cfg i (Inst.fresh (cfg i)) Server.start :=
  ⟨World.start cfg 0, .start ⟨0, rfl⟩, rfl, rfl⟩

theorem Stands.act (h : Stands cfg i x v) {a : Act} {y : Inst}
    (hx : ∀ now, x.step (cfg i) now a = some y) : Stands cfg i y v := by
  obtain ⟨w, hw, rfl, rfl⟩ := h
  exact ⟨_, (Trans.act i a y (hx _)).reach hw, by simp, rfl⟩

theorem Stands.opened (h : Stands cfg i x v) (timeOut : Int) (hs : x.h.state = .associating)
    (hc : x.h.client_id = none) :
    Stands cfg i { x with h := x.h.established v.next timeOut } v.openSession := by
  obtain ⟨w, hw, rfl, rfl⟩ := h
  exact ⟨_, (Trans.opened i timeOut hs hc).reach hw, by simp, rfl⟩

theorem Stands.reattached (h : Stands cfg i x v) (timeOut : Int) {s : Session}
    (hs : x.h.state = .associating) (hc : x.h.client_id = some s) (hl : v.live s = true) :
    Stands cfg i { x with h := x.h.established s timeOut } v := by
  obtain ⟨w, hw, rfl, rfl⟩ := h
  exact ⟨_, (Trans.reattached i timeOut s hs hc hl).reach hw, by simp, rfl⟩

theorem Stands.served (h : Stands cfg i x v) {t : Thread} {s : Session} {op : Op}
    (hp : x.phase t = some .sent) (hc : x.h.client_id = some s) (ho : x.op (cfg i) t = some op) :
    Stands cfg i (x.setPhase (.replied (v.apply s op).2) t) (v.apply s op).1 := by
  obtain ⟨w, hw, rfl, rfl⟩ := h
  exact ⟨_, (Trans.served i t s op hp hc ho).reach hw, by simp, rfl⟩

theorem Stands.next (h : Stands cfg i x v) (pc : Pc) (hn : ∀ now, x.next (cfg i) now = some pc) :
    Stands cfg i { x with pc } v :=
  h.act (a := .main) fun now => by simp [Inst.step, Inst.main, hn now]

/-- A valid request goes out on a connected handle. -/
theorem Stands.sent (h : Stands cfg i x v) {k : Call} (hpc : x.pc = .call k .entry)
    (hs : x.h.state = .connected) (hv : isValidPath false (k.op (cfg i)).path = true) :
    Stands cfg i { x with pc := .call k .sent } v := by
  have h0 : Stands cfg i { x with pc := .call k .checked } v := by
    refine h.next _ fun now => ?_
    simp [Inst.next, hpc, enter, Request_path_init, hv, hs, is_unrecoverable, ZooState.code]
  have h1 : Stands cfg i { x with pc := .call k .queued } v := h0.next _ fun now => rfl
  exact h1.act (a := .send .main) fun now => by simp [Inst.step, Inst.send, Inst.phase, hs,
    Inst.setPhase]

/-- The main thread makes a call and gets the answer of the server. -/
theorem Stands.called (h : Stands cfg i x v) {k : Call} {s : Session} (hpc : x.pc = .call k .entry)
    (hs : x.h.state = .connected) (hc : x.h.client_id = some s)
    (hv : isValidPath false (k.op (cfg i)).path = true) :
    Stands cfg i { x with pc := .call k (.returned (v.apply s (k.op (cfg i))).2) }
      (v.apply s (k.op (cfg i))).1 := by
  have h1 := (h.sent hpc hs hv).served (t := .main) (s := s) rfl hc rfl
  exact h1.act (a := .receive .main) fun now => by simp [Inst.step, Inst.receive, Inst.phase, hs,
    Inst.setPhase]

/-- The request of the callback goes out. -/
theorem Stands.registers (h : Stands cfg i x v) (hcb : x.cb = .call .entry)
    (hs : x.h.state = .connected) (hv : isValidPath false (cfg i).presencePath = true) :
    Stands cfg i { x with cb := .call .sent } v := by
  have h0 := h.act (a := .completion) (y := { x with cb := .call .checked }) fun now => by
    simp [Inst.step, Inst.completion, hcb, enter, Request_path_init, hv, hs, is_unrecoverable,
      ZooState.code]
  have h1 := h0.act (a := .completion) (y := { x with cb := .call .queued }) fun now => rfl
  exact h1.act (a := .send .completion) fun now => by simp [Inst.step, Inst.send, Inst.phase, hs,
    Inst.setPhase]

/-- A handle without a session connects. -/
theorem Stands.connected (h : Stands cfg i x v) (hs : x.h.state = .notConnected)
    (hc : x.h.client_id = none) :
    Stands cfg i { x with h := Handle.established x.h v.next 10000 } v.openSession := by
  have h1 := h.act (a := .dial) (y := { x with h := { x.h with state := .connecting } })
    fun now => by simp [Inst.step, Handle.dial, hs]
  have h2 := h1.act (a := .prime) (y := { x with h := { x.h with state := .associating } })
    fun now => by simp [Inst.step, Handle.prime]
  exact h2.opened 10000 rfl hc

/-- A handle that lost its connection gets its live session back. -/
theorem Stands.reconnected (h : Stands cfg i x v) {s : Session} (hs : x.h.state = .closed)
    (hc : x.h.client_id = some s) (hl : v.live s = true) :
    Stands cfg i { x with h := Handle.established x.h s 10000 } v := by
  have h1 := h.act (a := .dial) (y := { x with h := { x.h with state := .connecting } })
    fun now => by simp [Inst.step, Handle.dial, hs]
  have h2 := h1.act (a := .prime) (y := { x with h := { x.h with state := .associating } })
    fun now => by simp [Inst.step, Handle.prime]
  exact h2.reattached 10000 rfl hc hl

/-- A process that races against a node of its own, with another text than
`zk_1`, waits for itself. -/
theorem Stands.standoff (h : Stands cfg i x v) {s : Session} {n : Znode}
    (hpc : x.pc = .call .race .entry) (hs : x.h.state = .connected) (hc : x.h.client_id = some s)
    (hl : v.live s = true) (hv : isValidPath false (cfg i).master_path = true)
    (hn : v.nodes (cfg i).master_path = some n) (ho : n.owner = some s) (hd : n.data ≠ zk_1) :
    ∃ w, (system cfg).Reach w ∧ w.waitsForItself cfg i := by
  have hrace : v.apply s (Call.race.op (cfg i)) = (v, { rc := ZNODEEXISTS, seen := some n }) := by
    simp [Server.apply, hl, Call.op, Op.path, hn]
  have h1 := h.called hpc hs hc hv
  rw [hrace] at h1
  have h2 := h1.next (.call (.read (some n)) .entry) fun now => rfl
  have hread : v.apply s ((Call.read (some n)).op (cfg i)) =
      (v, { rc := ZOK, data := some n.data, seen := some n }) := by
    simp [Server.apply, hl, Call.op, Op.path, hn]
  have h3 := h2.called rfl hs hc hv
  rw [hread] at h3
  have h4 := h3.next (.standby (some n)) fun now => by
    simp only [Inst.next]
    rw [resume_read_some (d := n.data) rfl rfl, if_neg hd]
  obtain ⟨w, hw, hx, rfl⟩ := h4
  exact ⟨w, hw, n, s, by rw [hx], hn, ho, by rw [hx]; exact hc, hl⟩

/-- The create of the race is applied, and its answer is lost. -/
theorem waits_after_lost_reply (cfg : ι → Config) (i : ι)
    (hv : isValidPath false (cfg i).master_path = true) (hr : (cfg i).master_path ≠ rootPath)
    (hd : (cfg i).master_data ≠ zk_1) :
    ∃ w, (system cfg).Reach w ∧ w.waitsForItself cfg i := by
  have h1 := (Stands.start cfg i).connected rfl rfl
  have h2 := h1.next (.call .race .entry) fun now => rfl
  have h3 := (h2.sent rfl rfl hv).served (t := .main) (s := 0) rfl rfl rfl
  have h4 := h3.act (a := .loss ZCONNECTIONLOSS) fun now => rfl
  have h5 := h4.reconnected (s := 0) rfl rfl (by rw [Server.apply_live]; rfl)
  have h6 := h5.next (.failed ZCONNECTIONLOSS) fun now => rfl
  have h7 := h6.next (.pause) fun now => rfl
  have h8 := h7.next (.head) fun now => rfl
  have h9 := h8.next (.call .race .entry) fun now => rfl
  refine h9.standoff (s := 0) (n := { data := (cfg i).master_data, owner := some 0, czxid := 1 })
    rfl rfl rfl (by rw [Server.apply_live]; rfl) hv ?_ rfl hd
  simp [Server.apply, Server.openSession, Server.start, Call.op, Op.path, hr]

/-- The callback registers the process at the master path. -/
theorem waits_after_registration (cfg : ι → Config) (i : ι)
    (hv : isValidPath false (cfg i).master_path = true) (hr : (cfg i).master_path ≠ rootPath)
    (hp : (cfg i).presencePath = (cfg i).master_path) (hd : (cfg i).zk_node_data ≠ zk_1) :
    ∃ w, (system cfg).Reach w ∧ w.waitsForItself cfg i := by
  have h1 := (Stands.start cfg i).connected rfl rfl
  have h2 := h1.act (a := .completion) fun now => rfl
  have h3 := (h2.registers rfl rfl (hp ▸ hv)).served (t := .completion) (s := 0) rfl rfl rfl
  have h4 := h3.next (.call .race .entry) fun now => rfl
  refine h4.standoff (s := 0) (n := { data := (cfg i).zk_node_data, owner := some 0, czxid := 1 })
    rfl rfl rfl (by rw [Server.apply_live]; rfl) hv ?_ rfl hd
  simp [Server.apply, Server.openSession, Server.start, Op.path, hp, hr]

/-- With a path that the client refuses, a process races in vain for ever. -/
theorem reach_vain (hv : isValidPath false (cfg i).master_path = false)
    (h : (system cfg).Reach w) : (w.inst i).pc.vain = true := by
  apply reach_inst (P := fun x => x.pc.vain = true) rfl _ _ _ _ h
  · intro now x a x' hp hs
    exact Inst.step_vain hv hs hp
  · intro x s timeOut hp _
    exact hp
  · intro x hp _
    exact Pc.abort_vain _ hp
  · intro x t r hp hph
    cases t with
    | completion =>
      rw [Inst.setPhase_completion_pc]
      exact hp
    | main =>
      obtain ⟨k, hk⟩ := Inst.phase_main hph
      rw [hk] at hp
      cases k <;> cases hp

/-- A process never waits for itself exactly when the client refuses its path,
or its path is the root, which is nobody's, or everything that it writes there
is `zk_1`. -/
theorem never_waits_for_itself_iff (cfg : ι → Config) (i : ι) :
    (∀ w, (system cfg).Reach w → ¬ w.waitsForItself cfg i) ↔
      (isValidPath false (cfg i).master_path = true → (cfg i).master_path ≠ rootPath →
        (cfg i).writesZk1) := by
  constructor
  · intro h hv hr
    by_contra hc
    by_cases hd : (cfg i).master_data = zk_1
    · have hp : ¬ ((cfg i).presencePath = (cfg i).master_path → (cfg i).zk_node_data = zk_1) :=
        fun hp => hc ⟨hd, hp⟩
      push Not at hp
      obtain ⟨w, hw, hwait⟩ := waits_after_registration cfg i hv hr hp.1 hp.2
      exact h w hw hwait
    · obtain ⟨w, hw, hwait⟩ := waits_after_lost_reply cfg i hv hr hd
      exact h w hw hwait
  · intro hc w hw
    cases hv : isValidPath false (cfg i).master_path with
    | true =>
      by_cases hr : (cfg i).master_path = rootPath
      · exact not_waitsForItself_root hw hr
      · exact not_waitsForItself hw (hc hv hr)
    | false =>
      rintro ⟨n, s, hpc, _⟩
      have := reach_vain hv hw
      rw [hpc] at this
      cases this

/-- The standby of `STG.ini` writes `zk_2`. After one lost reply it takes its
own node for another master. -/
theorem the_standby_waits_for_itself :
    ¬ ∀ (cfg : Bool → Config) (i : Bool) (w : World Bool), (system cfg).Reach w →
      ¬ w.waitsForItself cfg i := by
  intro h
  obtain ⟨w, hw, hwait⟩ := waits_after_lost_reply pair true (by decide) (by decide) (by decide)
  exact h pair true w hw hwait

end World

end ZookZhubei
