-- The branch of `run` that resumes a mastership. The node that it read has
-- the data `zk_1`. It is one of the process's own live session when only this
-- process writes `zk_1`, no session of an earlier life is still alive, and the
-- session does not end between the answer and the branch.
import ZookZhubei.Sessions

namespace ZookZhubei

open Runs

/-! ## The answer to a read -/

/-- What the server has answered to the read of `run`. -/
def Pc.readReply : Pc → Option Reply
  | .call (.read _) (.replied r) | .call (.read _) (.returned r) => some r
  | _ => none

namespace Inst

variable {c : Config} {now : Int} {x x' : Inst} {a : Act} {r : Reply}

theorem next_readReply {pc : Pc} (h : x.next c now = some pc) (hp : pc.readReply = some r) :
    r.rc ≠ ZOK := by
  cases next_flow h with
  | checked k _ _ | queued k _ => cases k <;> cases hp
  | refused k rc _ hrc _ =>
    cases k with
    | read b =>
      cases hp
      exact hrc
    | _ => cases hp
  | _ => cases hp

theorem abort_readReply {pc : Pc} {rc : Int} (hrc : rc ≠ ZOK)
    (hp : (pc.abort rc).readReply = some r) (hr : r.rc = ZOK) : pc.readReply = some r := by
  cases pc with
  | call k ph =>
    cases k with
    | read b =>
      cases ph with
      | entry | checked => cases hp
      | returned r => exact hp
      | queued | sent | replied r' =>
        cases hp
        exact absurd hr hrc
    | _ => cases ph <;> cases hp
  | _ => cases hp

/-- A process makes up no answer, and keeps its session while it has one. -/
theorem step_readReply (h : x.step c now a = some x') (hp : x'.pc.readReply = some r)
    (hr : r.rc = ZOK) : x.pc.readReply = some r ∧ x'.h.client_id = x.h.client_id := by
  cases step_moves h with
  | ran pc hn hx =>
    subst hx
    exact absurd hr (next_readReply hn hp)
  | kept _ _ hpc hc _ => exact ⟨hpc ▸ hp, hc⟩
  | sent k hk hx =>
    subst hx
    cases k <;> cases hp
  | received k r' hk hx =>
    subst hx
    refine ⟨?_, rfl⟩
    rw [hk]
    cases k with
    | read b => exact hp
    | _ => cases hp
  | lost rc hrc hpc hc _ => exact ⟨abort_readReply (lossCodes_ne_ok hrc) (hpc ▸ hp) hr, hc⟩
  | recreated init _ _ _ hpc =>
    rcases hpc with he | ⟨e, he⟩ <;> rw [he] at hp <;> cases hp
  | restarted hx =>
    subst hx
    cases hp

end Inst

/-! ## Every deployment -/

namespace World

variable {ι : Type} {cfg : ι → Config} {w w' : World ι} {l : Label ι} {i : ι}

/-- Nobody but `i` writes `zk_1` at the master path of `i`. -/
structure OnlyZk1 (cfg : ι → Config) (i : ι) : Prop where
  master : ∀ j, j ≠ i → (cfg j).master_data ≠ zk_1
  node : ∀ j, j ≠ i → (cfg j).presencePath = (cfg i).master_path → (cfg j).zk_node_data ≠ zk_1

/-- `i` starts anew only when its session has ended, its session does not end
while it has read `zk_1` and not yet acted on it, and no other client makes a
node with `zk_1` at its master path. -/
def ResumesInTime (cfg : ι → Config) (i : ι) (w : World ι) (l : Label ι) : Prop :=
  RestartsLate i w l ∧
  (∀ r ∈ (w.inst i).pc.readReply, dataRead (cfg i) r = some zk_1 →
    ∀ s ∈ l.ends, (w.inst i).h.client_id ≠ some s) ∧
  LeavesAlone (cfg i).master_path (· = zk_1) l

/-- A node with `zk_1` is one of the current session of `i`. -/
theorem zk_1_is_own (ht : Traced cfg w) (ho : OneSession i w) (hz : OnlyZk1 cfg i)
    (he : Ephemeral (cfg i).master_path (· = zk_1) w) {n : Znode}
    (hn : w.srv.nodes (cfg i).master_path = some n) (hd : n.data = zk_1) :
    ∃ s, n.owner = some s ∧ (w.inst i).h.client_id = some s ∧ w.srv.live s = true := by
  obtain ⟨s, hs⟩ := Option.ne_none_iff_exists'.mp (he n hn hd)
  obtain ⟨j, hj, hop⟩ := ht.node_writer _ n s hn hs
  have hl := ht.node_live _ n s hn hs
  have hij : j = i := by
    by_contra hij
    rw [hd] at hop
    rcases Config.create_mem_ops.mp hop with ⟨_, h1⟩ | ⟨h1, h2⟩
    · exact hz.master j hij h1.symm
    · exact hz.node j hij h1.symm h2.symm
  subst hij
  exact ⟨s, hs, ho s hj hl, hl⟩

/-- Every `zk_1` that `i` has read comes from a node of its live session. -/
def ReadOwn (i : ι) (w : World ι) : Prop :=
  ∀ r, (w.inst i).pc.readReply = some r → r.rc = ZOK → r.data = some zk_1 →
    ∃ n s, r.seen = some n ∧ n.owner = some s ∧ (w.inst i).h.client_id = some s ∧
      w.srv.live s = true

/-- The same when the server only gains sessions, or ends another one. -/
theorem ReadOwn.srv (h : ReadOwn i w) {v : Server}
    (hv : ∀ r, (w.inst i).pc.readReply = some r → r.rc = ZOK → r.data = some zk_1 →
      ∀ s, (w.inst i).h.client_id = some s → w.srv.live s = true → v.live s = true) :
    ReadOwn i { w with srv := v } := by
  intro r hr hok hd
  obtain ⟨n, s, hn, ho, hc, hl⟩ := h r hr hok hd
  exact ⟨n, s, hn, ho, hc, hv r hr hok hd s hc hl⟩

variable [DecidableEq ι]

instance (cfg : ι → Config) (i : ι) (w : World ι) (l : Label ι) :
    Decidable (ResumesInTime cfg i w l) :=
  inferInstanceAs (Decidable (RestartsLate i w l ∧
    (∀ r ∈ (w.inst i).pc.readReply, _ → ∀ s ∈ l.ends, _) ∧ LeavesAlone _ (· = zk_1) l))

theorem ReadOwn.keeps (h : ReadOwn i w) {j : ι} {x' : Inst}
    (hx : ∀ r, x'.pc.readReply = some r → r.rc = ZOK →
      (w.inst j).pc.readReply = some r ∧ x'.h.client_id = (w.inst j).h.client_id) :
    ReadOwn i (w.setInst j x') := by
  intro r hr hok hd
  by_cases hij : i = j
  · subst hij
    simp only [setInst_self] at hr ⊢
    obtain ⟨h1, h2⟩ := hx r hr hok
    rw [h2]
    exact h r h1 hok hd
  · simp only [setInst_ne w x' hij] at hr ⊢
    exact h r hr hok hd

theorem ReadOwn.served (h : ReadOwn i w) (ht : Traced cfg w) (ho : OneSession i w)
    (hz : OnlyZk1 cfg i) (he : Ephemeral (cfg i).master_path (· = zk_1) w) {j : ι} {t : Thread}
    {s : Session} {op : Op} (hph : (w.inst j).phase t = some .sent)
    (hop : (w.inst j).op (cfg j) t = some op) :
    ReadOwn i { w.setInst j ((w.inst j).setPhase (.replied (w.srv.apply s op).2) t) with
      srv := (w.srv.apply s op).1 } := by
  have h1 : ReadOwn i { w with srv := (w.srv.apply s op).1 } :=
    h.srv fun _ _ _ _ u _ hl => by rw [Server.apply_live]; exact hl
  intro r hr hok hd
  by_cases hij : i = j
  · subst hij
    simp only [setInst_self] at hr ⊢
    rw [Inst.setPhase_h]
    cases t with
    | completion =>
      rw [Inst.setPhase_completion_pc] at hr
      exact h1 r hr hok hd
    | main =>
      obtain ⟨k, hk⟩ := Inst.phase_main hph
      simp only [Inst.op, hk, Option.some.injEq] at hop
      subst hop
      rw [Inst.setPhase_main _ hk] at hr
      cases k with
      | read b =>
        cases hr
        obtain ⟨_, hv, n, hn, hrep⟩ := Server.apply_get hok
        rw [Call.op, hrep] at hd ⊢
        obtain ⟨u, hu, hc, hl⟩ := zk_1_is_own ht ho hz he hn (by simpa using hd)
        exact ⟨n, u, rfl, hu, hc, by rw [hv]; exact hl⟩
      | _ => cases hr
  · simp only [setInst_ne w _ hij] at hr ⊢
    exact h1 r hr hok hd

theorem readOwn_step (ht : Traced cfg w) (ho : OneSession i w) (hz : OnlyZk1 cfg i)
    (he : Ephemeral (cfg i).master_path (· = zk_1) w) (h : ReadOwn i w)
    (hg : ResumesInTime cfg i w l) (hs : w.step cfg l = some w') : ReadOwn i w' := by
  cases step_trans hs with
  | act j a x' hx => exact h.keeps fun r hr hok => Inst.step_readReply hx hr hok
  | opened j timeOut hst hn =>
    intro r hr hok hd
    by_cases hij : i = j
    · subst hij
      simp only [setInst_self] at hr
      obtain ⟨n, s, _, _, hc, _⟩ := h r hr hok hd
      rw [hn] at hc
      cases hc
    · simp only [setInst_ne w _ hij] at hr ⊢
      obtain ⟨n, s, hseen, hown, hc, hl⟩ := h r hr hok hd
      refine ⟨n, s, hseen, hown, hc, ?_⟩
      rw [Server.openSession_live (ht.client_ne_next hc)]
      exact hl
  | reattached j timeOut s hst hc hl => exact h.keeps fun r hr _ => ⟨hr, hc.symm⟩
  | expired j timeOut s hst hc hl =>
    exact h.keeps fun r hr hok => ⟨Inst.abort_readReply (by decide) hr hok, rfl⟩
  | served j t s op hph _ hop => exact h.served ht ho hz he hph hop
  | refused j t rc s op hph _ _ _ hr =>
    refine h.keeps fun r hrep hok => ?_
    cases t with
    | completion =>
      rw [Inst.setPhase_completion_pc] at hrep
      exact ⟨hrep, by simp⟩
    | main =>
      obtain ⟨k, hk⟩ := Inst.phase_main hph
      rw [Inst.setPhase_main _ hk] at hrep
      cases k with
      | read b =>
        cases hrep
        exact absurd hok (Server.refusal_rc hr).1
      | _ => cases hrep
  | late k s op _ => exact h.srv fun _ _ _ _ u _ hl => by rw [Server.apply_live]; exact hl
  | dropped k _ => exact h
  | ended s _ =>
    refine h.srv fun r hr hok hd u hc hl => ?_
    have hne : u ≠ s := by
      rintro rfl
      exact hg.2.1 r hr (dataRead_zk_1_iff.mpr ⟨hok, hd⟩) u rfl hc
    simp only [Server.expire, Function.update_of_ne hne]
    exact hl
  | edited e v hv =>
    exact h.srv fun _ _ _ _ u _ hl => by rw [(Server.edit_sessions hv).1]; exact hl
  | tick n => exact h

theorem reach_onlyZk1 (h : (system cfg).ReachBy (ResumesInTime cfg i) w) :
    Traced cfg w ∧ OneSession i w ∧ Ephemeral (cfg i).master_path (· = zk_1) w :=
  ⟨reach_traced h.reach, reach_oneSession (h.mono fun _ _ hg => hg.1),
    reach_ephemeral (fun _ _ hg => hg.2.2) (fun _ => by decide) h⟩

theorem reach_readOwn (hz : OnlyZk1 cfg i) (h : (system cfg).ReachBy (ResumesInTime cfg i) w) :
    ReadOwn i w := by
  apply System.ReachBy.invariant_with (P := ReadOwn i) (Q := fun w => Traced cfg w ∧
    OneSession i w ∧ Ephemeral (cfg i).master_path (· = zk_1) w) _ _ _ h
  · intro s hs
    exact reach_onlyZk1 hs
  · rintro s ⟨now, rfl⟩ r hr
    cases hr
  · rintro s l s' ⟨ht, ho, he⟩ hr hg hs
    exact readOwn_step ht ho hz he hr hg hs

/-- In every run in which the process with `zk_1` starts anew only after its
session has ended, keeps its session while it has a `zk_1` in hand, and nobody
else writes `zk_1`, it resumes only a mastership of its own. The node that it
reads belongs to its live session when the server answers, and when `run` takes
the branch. -/
theorem it_resumes_only_its_own (hz : OnlyZk1 cfg i)
    (h : (system cfg).ReachBy (ResumesInTime cfg i) w) :
    (∀ s n, (w.inst i).h.client_id = some s →
      (w.srv.apply s (.get (cfg i).master_path)).2.seen = some n → n.data = zk_1 →
      n.owner = some s ∧ w.srv.live s = true) ∧
    (∀ r ∈ (w.inst i).readBack, dataRead (cfg i) r = some zk_1 →
      ∃ n ∈ r.seen, ∃ s ∈ n.owner, (w.inst i).h.client_id = some s ∧ w.srv.live s = true) := by
  refine ⟨?_, ?_⟩
  · intro s n hs hseen hd
    obtain ⟨ht, ho, he⟩ := reach_onlyZk1 h
    obtain ⟨u, hu, hc, hl⟩ := zk_1_is_own ht ho hz he (Server.apply_seen hseen) hd
    rw [hs] at hc
    cases hc
    exact ⟨hu, hl⟩
  · intro r hr hd
    obtain ⟨hok, hdata⟩ := dataRead_zk_1_iff.mp hd
    have hrep : (w.inst i).pc.readReply = some r := by
      unfold Inst.readBack at hr
      split at hr
      · rename_i hpc
        cases hr
        rw [hpc]
        rfl
      · cases hr
    obtain ⟨n, s, hn, ho, hc, hl⟩ := reach_readOwn hz h r hrep hok hdata
    exact ⟨n, hn, s, ho, hc, hl⟩

/-- The reply to the race is lost, and the process reads its own node back. -/
def readsBack : List (Label Bool) :=
  connects false ++ [.act false .main, .act false .main, .act false .main,
    .act false (.send .main), .serve false .main, .act false (.loss ZCONNECTIONLOSS)] ++
  connects false ++ List.replicate 4 (.act false .main) ++ calls false ++ (calls false).take 5

theorem pair_onlyZk1 : OnlyZk1 pair false where
  master := by decide
  node := by decide

set_option maxRecDepth 20000 in
theorem it_resumes_only_its_own_of_readsBack :
    ∃ w : World Bool, (system pair).ReachBy (ResumesInTime pair false) w ∧
      ∃ r ∈ (w.inst false).readBack, dataRead (pair false) r = some zk_1 ∧
        ∃ n ∈ r.seen, ∃ s ∈ n.owner, (w.inst false).h.client_id = some s ∧
          w.srv.live s = true := by
  obtain ⟨w, hw, ht⟩ := System.ReachBy.of_run (M := system pair) (G := ResumesInTime pair false)
    (readsBack)
    (fun w => (w.inst false).readBack.any fun r => dataRead (pair false) r == some zk_1)
    (.start ⟨1000, rfl⟩) (by decide)
  obtain ⟨r, hr, hd⟩ := (Option.any_eq_true _ _).mp ht
  have hd' : dataRead (pair false) r = some zk_1 := by simpa using hd
  exact ⟨w, hw, r, hr, hd', (it_resumes_only_its_own pair_onlyZk1 hw).2 r hr hd'⟩

/-- The process crashes as master and is started again. Its new session reads
the `zk_1` of the old one, which the server has not ended yet. -/
theorem it_resumes_an_older_session :
    ¬ ∀ (cfg : Bool → Config) (i : Bool), (cfg i).master_data = zk_1 →
      (∀ j, j ≠ i → (cfg j).master_data ≠ zk_1) → ∀ w, (system cfg).Reach w →
      ∀ r ∈ (w.inst i).readBack, dataRead (cfg i) r = some zk_1 →
        ∃ n ∈ r.seen, ∃ s ∈ n.owner, (w.inst i).h.client_id = some s ∧ w.srv.live s = true := by
  intro h
  obtain ⟨w, hw, ht⟩ := System.Reach.of_run (M := system pair)
    (connects false ++ [.act false .main] ++ calls false ++ [.act false .restart] ++
      connects false ++ [.act false .main] ++ calls false ++ (calls false).take 5)
    (fun w => (w.inst false).h.client_id == some 1 && (w.inst false).readBack.any fun r =>
      dataRead (pair false) r == some zk_1 && r.seen.any fun n => n.owner == some 0) ⟨1000, rfl⟩
    (by set_option maxRecDepth 20000 in decide)
  simp only [Bool.and_eq_true, beq_iff_eq, Option.any_eq_true] at ht
  obtain ⟨hc, r, hr, hd, n, hn, ho⟩ := ht
  obtain ⟨m, hm, s, hs, hown, _⟩ := h pair false rfl (by decide) w hw r hr hd
  rw [Option.mem_def, hn] at hm
  cases hm
  rw [Option.mem_def, ho] at hs
  cases hs
  rw [hc] at hown
  cases hown

end World

end ZookZhubei
