-- To whom a master gives way. `work` deletes the master node when the node
-- of the primary seems to be there. Every code but `ZNONODE` counts as a
-- primary, also the code of a call that the server never saw, or refused.
import ZookZhubei.Provenance
import ZookZhubei.Holding

namespace ZookZhubei

open Runs

/-! ## The answer of `zoo_exists` -/

/-- What `is_zhu_exist` got, as long as `work` acts on it. -/
def Pc.zhu : Pc → Option Reply
  | .call (.exist _) (.replied r) | .call (.exist _) (.returned r) => some r
  | .check _ r | .call (.delete _ r) _ => some r
  | _ => none

/-- `zoo_exists` came back with another code than the two that tell something
of the node, and `work` has not yet asked `is_connected`. -/
def Pc.misled : Pc → Bool
  | .call (.exist _) (.replied r) | .call (.exist _) (.returned r) | .check _ r =>
    r.rc != ZOK && r.rc != ZNONODE
  | _ => false

/-- The main thread waits for the answer to `zoo_exists`. -/
def Pc.asks : Pc → Bool
  | .call (.exist _) _ => true
  | _ => false

namespace Inst

variable {c : Config} {now : Int} {x x' : Inst} {a : Act} {t : Thread} {r : Reply}

theorem next_zhu {pc : Pc} (h : x.next c now = some pc) (hp : pc.zhu = some r) (hr : r.rc = ZOK) :
    x.pc.zhu = some r := by
  cases next_flow h with
  | checked k hpc _ | queued k hpc =>
    rw [hpc]
    cases k with
    | delete via zhu => exact hp
    | _ => cases hp
  | refused k rc hpc hrc _ =>
    rw [hpc]
    cases k with
    | delete via zhu => exact hp
    | exist via =>
      cases hp
      exact absurd hr hrc
    | _ => cases hp
  | zhu via r hpc _ =>
    rw [hpc]
    exact hp
  | yields via zhu hpc _ =>
    rw [hpc]
    exact hp
  | _ => cases hp

theorem abort_zhu {pc : Pc} {rc : Int} (hrc : rc ≠ ZOK) (hp : (pc.abort rc).zhu = some r)
    (hr : r.rc = ZOK) : pc.zhu = some r := by
  cases pc with
  | call k ph =>
    cases k with
    | delete via zhu => cases ph <;> exact hp
    | exist via =>
      cases ph with
      | entry | checked => cases hp
      | returned r => exact hp
      | queued | sent | replied r' =>
        cases hp
        exact absurd hr hrc
    | _ => cases ph <;> cases hp
  | _ => exact hp

/-- A process makes up no answer of the server. -/
theorem step_zhu (h : x.step c now a = some x') (hp : x'.pc.zhu = some r) (hr : r.rc = ZOK) :
    x.pc.zhu = some r := by
  cases step_moves h with
  | ran pc hn hx =>
    subst hx
    exact next_zhu hn hp hr
  | kept _ _ hpc _ _ => exact hpc ▸ hp
  | sent k hk hx =>
    subst hx
    rw [hk]
    cases k with
    | delete via zhu => exact hp
    | _ => cases hp
  | received k r' hk hx =>
    subst hx
    rw [hk]
    cases k with
    | delete via zhu | exist via => exact hp
    | _ => cases hp
  | lost rc hrc hpc _ _ => exact abort_zhu (lossCodes_ne_ok hrc) (hpc ▸ hp) hr
  | recreated init _ _ _ hpc =>
    rcases hpc with he | ⟨e, he⟩ <;> rw [he] at hp <;> cases hp
  | restarted hx =>
    subst hx
    cases hp

/-- A call of `zoo_exists` that ends in the client leaves a handle that is not
connected. -/
theorem step_misled (h : x.step c now a = some x')
    (hm : x.pc.misled = true → x.h.state ≠ .connected) (hp : x'.pc.misled = true) :
    x'.h.state ≠ .connected := by
  cases a with
  | main =>
    obtain ⟨pc, hn, rfl⟩ := main_eq h
    cases next_flow hn with
    | checked k _ _ | queued k _ => cases k <;> cases hp
    | refused k rc hpc hrc hreq =>
      cases k with
      | exist via =>
        -- the path is a good one, so only a dead handle refuses it
        intro hs
        have hok : Request_path_init x.h.state zhuPath = ZOK := by
          rw [hs]
          decide
        rw [Call.op, Op.path, hok] at hreq
        exact hrc hreq.symm
      | _ => cases hp
    | zhu via r hpc hr => exact hm (by rw [hpc]; exact hp)
    | _ => cases hp
  | recreate init =>
    obtain ⟨_, ⟨_, rfl⟩ | ⟨_, _, _, rfl⟩⟩ := recreate_eq h <;> cases hp
  | stop =>
    cases h
    exact hm hp
  | completion =>
    obtain ⟨h1, _, h3, _⟩ := completion_frame h
    rw [h3]
    exact hm (h1 ▸ hp)
  | dial =>
    obtain ⟨_, rfl⟩ := dial_eq h
    simp
  | prime =>
    obtain ⟨_, rfl⟩ := prime_eq h
    simp
  | loss rc =>
    obtain ⟨_, hs, rfl⟩ := loss_eq h
    simp only [Handle.cleanup_recoverable hs]
    simp
  | send t =>
    obtain ⟨hph, _, rfl⟩ := send_eq h
    cases t with
    | completion =>
      rw [setPhase_completion_pc] at hp
      rw [setPhase_h]
      exact hm hp
    | main =>
      obtain ⟨k, hk⟩ := phase_main hph
      rw [setPhase_main _ hk] at hp
      cases k <;> cases hp
  | receive t =>
    obtain ⟨r, hph, _, rfl⟩ := receive_eq h
    rw [setPhase_h]
    cases t with
    | completion =>
      rw [setPhase_completion_pc] at hp
      exact hm hp
    | main =>
      obtain ⟨k, hk⟩ := phase_main hph
      rw [setPhase_main _ hk] at hp
      refine hm ?_
      rw [hk]
      cases k with
      | exist via => exact hp
      | _ => cases hp
  | restart =>
    cases h
    cases hp

/-- `work` deletes only after the two tests. -/
theorem step_delete {via : Via} {zhu : Reply} {ph' : Phase} (h : x.step c now a = some x')
    (hp : x'.pc = .call (.delete via zhu) ph') :
    (∃ ph, x.pc = .call (.delete via zhu) ph) ∨
      (x.pc = .check via zhu ∧ x.h.state = .connected) := by
  cases step_moves h with
  | ran pc hn hx =>
    subst hx
    simp only at hp
    subst hp
    cases hf : next_flow hn with
    | checked k hpc _ => exact Or.inl ⟨_, hpc⟩
    | queued k hpc => exact Or.inl ⟨_, hpc⟩
    | refused k rc hpc _ _ => exact Or.inl ⟨_, hpc⟩
    | yields via zhu hpc hs => exact Or.inr ⟨hpc, hs⟩
  | kept _ _ hpc _ _ => exact Or.inl ⟨ph', hpc ▸ hp⟩
  | sent k hk hx =>
    subst hx
    cases hp
    exact Or.inl ⟨_, hk⟩
  | received k r' hk hx =>
    subst hx
    cases hp
    exact Or.inl ⟨_, hk⟩
  | lost rc _ hpc _ _ =>
    rw [hpc] at hp
    exact Or.inl (abort_call hp)
  | recreated init _ _ _ hpc =>
    rcases hpc with he | ⟨e, he⟩ <;> rw [he] at hp <;> cases hp
  | restarted hx =>
    subst hx
    cases hp

/-- The answer of the server to another call, or a plain one to `zoo_exists`,
misleads nobody. -/
theorem replied_misled {ph : Phase} {r : Reply} (hph : x.phase t = some ph)
    (hr : t = .main → x.pc.asks = true → r.rc = ZOK ∨ r.rc = ZNONODE)
    (hp : (x.setPhase (.replied r) t).pc.misled = true) :
    x.pc.misled = true := by
  cases t with
  | completion =>
    rw [setPhase_completion_pc] at hp
    exact hp
  | main =>
    obtain ⟨k, hk⟩ := phase_main hph
    rw [setPhase_main _ hk] at hp
    cases k with
    | exist via =>
      exfalso
      rcases hr rfl (by rw [hk]; rfl) with h1 | h1 <;> simp [Pc.misled, h1] at hp
    | _ => cases hp

end Inst

/-! ## Every deployment -/

namespace World

variable {ι : Type} {cfg : ι → Config} {w w' : World ι} {l : Label ι} {i : ι}

/-- The process does not write the node of the primary itself. -/
structure NotZhu (c : Config) : Prop where
  master : c.master_path ≠ zhuPath
  node : c.presencePath ≠ zhuPath

/-- The server takes a `zoo_exists` of `i` only in a live session, and does not
refuse it, and a connection that was lost in between comes back only after
`work` has asked for it. -/
def AnswersPlainly (i : ι) (w : World ι) : Label ι → Prop
  | .serve j .main =>
    j = i → (w.inst i).pc.asks = true → (w.inst i).h.client_id.all w.srv.live = true
  | .refuse j .main _ => j = i → (w.inst i).pc.asks = false
  | .handshake j _ => j = i → (w.inst i).pc.misled = false
  | _ => True

/-- The same, and no other client makes a persistent node at `/nodes/test`. -/
def AsksPlainly (i : ι) (w : World ι) (l : Label ι) : Prop :=
  AnswersPlainly i w l ∧ LeavesAlone zhuPath (fun _ => True) l

/-- A primary that the server has shown to `i` belongs to another process. -/
def SawOther (i : ι) (w : World ι) : Prop :=
  ∀ r, (w.inst i).pc.zhu = some r → r.rc = ZOK →
    ∃ n s j, r.seen = some n ∧ n.owner = some s ∧ w.holder s = some j ∧ j ≠ i

/-- As long as the code of `zoo_exists` is misleading, the handle is not
connected. -/
def Misled (i : ι) (w : World ι) : Prop :=
  (w.inst i).pc.misled = true → (w.inst i).h.state ≠ .connected

/-- Every delete of `work` rests on a `ZOK`. -/
def DeleteAnswered (i : ι) (w : World ι) : Prop :=
  ∀ via zhu ph, (w.inst i).pc = .call (.delete via zhu) ph → zhu.rc = ZOK

variable [DecidableEq ι]

instance (i : ι) (w : World ι) : (l : Label ι) → Decidable (AnswersPlainly i w l)
  | .serve _ .main => inferInstanceAs (Decidable (_ → _ → Option.all _ _ = true))
  | .refuse _ .main _ => inferInstanceAs (Decidable (_ → _ = false))
  | .handshake _ _ => inferInstanceAs (Decidable (_ → _ = false))
  | .serve _ .completion | .refuse _ .completion _ | .act _ _ | .late _ | .drop _ | .expire _
  | .edit _ | .tick _ => isTrue trivial

instance (i : ι) (w : World ι) (l : Label ι) : Decidable (AsksPlainly i w l) :=
  inferInstanceAs (Decidable (_ ∧ LeavesAlone zhuPath (fun _ => True) l))

theorem SawOther.keeps (h : SawOther i w) {j : ι} {x' : Inst}
    (hx : ∀ r, x'.pc.zhu = some r → r.rc = ZOK → (w.inst j).pc.zhu = some r) :
    SawOther i (w.setInst j x') := by
  intro r hr hok
  have hr' := inst_of_setInst w (Q := fun x => x.pc.zhu = some r) hr fun h1 => hx r h1 hok
  exact h r hr' hok

theorem SawOther.served (h : SawOther i w) (ht : Traced cfg w) (hz : NotZhu (cfg i))
    (he : Ephemeral zhuPath (fun _ => True) w) {j : ι} {t : Thread} {s : Session} {op : Op}
    (hph : (w.inst j).phase t = some .sent) (hop : (w.inst j).op (cfg j) t = some op) :
    SawOther i { w.setInst j ((w.inst j).setPhase (.replied (w.srv.apply s op).2) t) with
      srv := (w.srv.apply s op).1 } := by
  intro r hr hok
  by_cases hij : i = j
  · subst hij
    simp only [setInst_self] at hr
    cases t with
    | completion =>
      rw [Inst.setPhase_completion_pc] at hr
      exact h r hr hok
    | main =>
      obtain ⟨k, hk⟩ := Inst.phase_main hph
      simp only [Inst.op, hk, Option.some.injEq] at hop
      subst hop
      rw [Inst.setPhase_main _ hk] at hr
      cases k with
      | exist via =>
        cases hr
        obtain ⟨n, hn, hseen⟩ := Server.apply_exist hok
        obtain ⟨u, hu⟩ := Option.ne_none_iff_exists'.mp (he n hn trivial)
        obtain ⟨k, hk', hmem⟩ := ht.node_writer _ n u hn hu
        refine ⟨n, u, k, hseen, hu, hk', ?_⟩
        rintro rfl
        rcases Config.create_mem_ops.mp hmem with ⟨h1, _⟩ | ⟨h1, _⟩
        · exact hz.master h1.symm
        · exact hz.node h1.symm
      | delete via zhu => exact h r (by rw [hk]; exact hr) hok
      | _ => cases hr
  · simp only [setInst_ne w _ hij] at hr
    exact h r hr hok

theorem sawOther_step (ht : Traced cfg w) (hz : NotZhu (cfg i))
    (he : Ephemeral zhuPath (fun _ => True) w) (h : SawOther i w)
    (hs : w.step cfg l = some w') : SawOther i w' := by
  cases step_trans hs with
  | act j a x' hx => exact h.keeps fun r hr hok => Inst.step_zhu hx hr hok
  | opened j timeOut _ _ =>
    intro r hr hok
    have hr' := inst_of_setInst w (Q := fun x => x.pc.zhu = some r) hr id
    obtain ⟨n, s, k, hn, ho, hk, hne⟩ := h r hr' hok
    refine ⟨n, s, k, hn, ho, ?_, hne⟩
    simpa only [Function.update_of_ne (ht.holder_ne_next hk)] using hk
  | reattached j timeOut s _ _ _ => exact h.keeps fun r hr _ => hr
  | expired j timeOut s _ _ _ => exact h.keeps fun r hr hok => Inst.abort_zhu (by decide) hr hok
  | served j t s op hph _ hop => exact h.served ht hz he hph hop
  | refused j t rc s op hph _ _ _ hr =>
    refine h.keeps fun r hrep hok => ?_
    cases t with
    | completion =>
      rw [Inst.setPhase_completion_pc] at hrep
      exact hrep
    | main =>
      obtain ⟨k, hk⟩ := Inst.phase_main hph
      rw [Inst.setPhase_main _ hk] at hrep
      cases k with
      | exist via =>
        cases hrep
        exact absurd hok (Server.refusal_rc hr).1
      | delete via zhu =>
        rw [hk]
        exact hrep
      | _ => cases hrep
  | late k s op _ => exact h
  | dropped k _ => exact h
  | ended s _ => exact h
  | edited e v _ => exact h
  | tick n => exact h

/-- A live session gets a plain answer to `zoo_exists`. -/
theorem apply_exist_plain {x : Inst} {c : Config} {op : Op} {v : Server} {s : Session}
    (hop : x.op c .main = some op) (ha : x.pc.asks = true) (hl : v.live s = true) :
    (v.apply s op).2.rc = ZOK ∨ (v.apply s op).2.rc = ZNONODE := by
  have he : op = .exist zhuPath := by
    unfold Pc.asks at ha
    split at ha
    · rename_i hpc
      simp only [Inst.op, hpc, Option.some.injEq] at hop
      exact hop.symm
    · cases ha
  subst he
  exact Server.apply_exist_rc hl

/-- Only what becomes of `i` itself matters. -/
theorem Misled.change (h : Misled i w) {j : ι} {x' : Inst}
    (hx : i = j → x'.pc.misled = true → x'.h.state ≠ .connected) :
    Misled i (w.setInst j x') := by
  intro hm
  by_cases hij : i = j
  · subst hij
    rw [setInst_self] at hm ⊢
    exact hx rfl hm
  · rw [setInst_ne w x' hij] at hm ⊢
    exact h hm

theorem Misled.replied (h : Misled i w) {j : ι} {t : Thread} {r : Reply}
    (hph : (w.inst j).phase t = some .sent)
    (hr : i = j → t = .main → (w.inst j).pc.asks = true → r.rc = ZOK ∨ r.rc = ZNONODE) :
    Misled i (w.setInst j ((w.inst j).setPhase (.replied r) t)) := by
  refine h.change fun hij hm => ?_
  subst hij
  rw [Inst.setPhase_h]
  exact h (Inst.replied_misled hph (hr rfl) hm)

theorem misled_step (h : Misled i w) (hg : AsksPlainly i w l) (hs : w.step cfg l = some w') :
    Misled i w' := by
  cases step_trans hs with
  | act j a x' hx =>
    refine h.change fun hij hm => ?_
    subst hij
    exact Inst.step_misled hx h hm
  | opened j timeOut _ _ | reattached j timeOut s _ _ _ =>
    refine h.change fun hij hm => ?_
    subst hij
    rw [hg.1 rfl] at hm
    cases hm
  | expired j timeOut s _ _ _ => exact h.change fun _ _ hst => by cases hst
  | served j t s op hph hc hop =>
    refine h.replied hph ?_
    rintro rfl rfl ha
    have hl := hg.1 rfl ha
    simp only [hc, Option.all_some] at hl
    exact apply_exist_plain hop ha hl
  | refused j t rc s op hph _ _ _ _ =>
    refine h.replied hph ?_
    rintro rfl rfl ha
    rw [hg.1 rfl] at ha
    cases ha
  | late k s op _ => exact h
  | dropped k _ => exact h
  | ended s _ => exact h
  | edited e v _ => exact h
  | tick n => exact h

theorem DeleteAnswered.keeps (h : DeleteAnswered i w) {j : ι} {x' : Inst}
    (hx : ∀ via zhu ph, x'.pc = .call (.delete via zhu) ph →
      ∃ ph, (w.inst j).pc = .call (.delete via zhu) ph) : DeleteAnswered i (w.setInst j x') := by
  intro via zhu ph hpc
  obtain ⟨ph', hpc'⟩ := inst_of_setInst w
    (Q := fun x => ∃ ph, x.pc = .call (.delete via zhu) ph) ⟨ph, hpc⟩
    fun ⟨ph, h1⟩ => hx via zhu ph h1
  exact h via zhu ph' hpc'

theorem DeleteAnswered.replied (h : DeleteAnswered i w) {j : ι} {t : Thread} {r : Reply}
    (hph : (w.inst j).phase t = some .sent) :
    DeleteAnswered i (w.setInst j ((w.inst j).setPhase (.replied r) t)) := by
  refine h.keeps fun via zhu ph hpc => ?_
  cases t with
  | completion =>
    rw [Inst.setPhase_completion_pc] at hpc
    exact ⟨ph, hpc⟩
  | main =>
    obtain ⟨k, hk⟩ := Inst.phase_main hph
    rw [Inst.setPhase_main _ hk] at hpc
    cases hpc
    exact ⟨_, hk⟩

/-- `work` asks `is_connected` last, and a handle that is connected has got a
plain answer. -/
theorem deleteAnswered_step (hm : Misled i w) (hseen : ∀ via r, (w.inst i).pc = .check via r →
    r.rc ≠ ZNONODE) (h : DeleteAnswered i w) (hs : w.step cfg l = some w') :
    DeleteAnswered i w' := by
  cases step_trans hs with
  | act j a x' hx =>
    intro via zhu ph hpc
    by_cases hij : i = j
    · subst hij
      simp only [setInst_self] at hpc
      rcases Inst.step_delete hx hpc with ⟨ph', hpc'⟩ | ⟨hck, hst⟩
      · exact h via zhu ph' hpc'
      · by_contra hrc
        refine hm ?_ hst
        simpa [hck, Pc.misled, hrc] using hseen via zhu hck
    · simp only [setInst_ne w x' hij] at hpc
      exact h via zhu ph hpc
  | opened j timeOut _ _ => exact h.keeps fun _ _ ph hpc => ⟨ph, hpc⟩
  | reattached j timeOut s _ _ _ => exact h.keeps fun _ _ ph hpc => ⟨ph, hpc⟩
  | expired j timeOut s _ _ _ => exact h.keeps fun _ _ _ hpc => Inst.abort_call hpc
  | served j t s op hph _ _ => exact DeleteAnswered.replied (w := w) h hph
  | refused j t rc s op hph _ _ _ _ => exact h.replied hph
  | late k s op _ => exact h
  | dropped k _ => exact h
  | ended s _ => exact h
  | edited e v _ => exact h
  | tick n => exact h

/-- `work` asks `is_connected` only about a node that seems to be there. -/
theorem reach_check (h : (system cfg).Reach w) {via : Via} {r : Reply}
    (hpc : (w.inst i).pc = .check via r) : r.rc ≠ ZNONODE := by
  revert hpc
  apply reach_inst (P := fun x => x.pc = .check via r → r.rc ≠ ZNONODE) _ _ _ _ _ h
  · intro hpc
    cases hpc
  · intro now x a x' hp hs hpc
    cases Inst.step_moves hs with
    | ran pc hn hx =>
      subst hx
      simp only at hpc
      subst hpc
      cases hf : Inst.next_flow hn with
      | zhu via r _ hr => exact hr
    | kept _ _ he _ _ => exact hp (he ▸ hpc)
    | sent k _ hx | received k r' _ hx =>
      subst hx
      cases hpc
    | lost rc _ he _ _ =>
      rw [he] at hpc
      cases hx : x.pc with
      | call k ph =>
        rw [hx] at hpc
        cases hpc
      | _ =>
        rw [hx] at hpc
        exact hp (hx.trans hpc)
    | recreated init _ _ _ he =>
      rcases he with he | ⟨e, he⟩ <;> rw [he] at hpc <;> cases hpc
    | restarted hx =>
      subst hx
      cases hpc
  · intro x s timeOut hp _ hpc
    exact hp hpc
  · intro x hp _ hpc
    cases hx : x.pc with
    | call k ph =>
      simp only [Inst.expire, hx] at hpc
      cases hpc
    | _ =>
      simp only [Inst.expire, hx] at hpc
      exact hp (hx.trans hpc)
  · intro x t r' hp hph hpc
    cases t with
    | completion =>
      rw [Inst.setPhase_completion_pc] at hpc
      exact hp hpc
    | main =>
      obtain ⟨k, hk⟩ := Inst.phase_main hph
      rw [Inst.setPhase_main _ hk] at hpc
      cases hpc

theorem reach_misled (h : (system cfg).ReachBy (AsksPlainly i) w) : Misled i w := by
  apply System.ReachBy.invariant (P := Misled i) _ _ h
  · rintro s ⟨now, rfl⟩ hm
    cases hm
  · intro s l s' hp hg hs
    exact misled_step hp hg hs

theorem reach_deleteAnswered (h : (system cfg).ReachBy (AsksPlainly i) w) :
    DeleteAnswered i w := by
  apply System.ReachBy.invariant_with (P := DeleteAnswered i)
    (Q := fun w => Misled i w ∧ ∀ via r, (w.inst i).pc = .check via r → r.rc ≠ ZNONODE) _ _ _ h
  · intro s hs
    exact ⟨reach_misled hs, fun via r hpc => reach_check hs.reach hpc⟩
  · rintro s ⟨now, rfl⟩ via zhu ph hpc
    cases hpc
  · rintro s l s' ⟨hm, hc⟩ hp _ hs
    exact deleteAnswered_step hm hc hp hs

theorem reach_sawOther (hz : NotZhu (cfg i)) (h : (system cfg).ReachBy (AsksPlainly i) w) :
    SawOther i w := by
  apply System.ReachBy.invariant_with (P := SawOther i)
    (Q := fun w => Traced cfg w ∧ Ephemeral zhuPath (fun _ => True) w) _ _ _ h
  · intro s hs
    exact ⟨reach_traced hs.reach,
      reach_ephemeral (fun _ _ hg => hg.2) (fun he => absurd he (by decide)) hs⟩
  · rintro s ⟨now, rfl⟩ r hr
    cases hr
  · rintro s l s' ⟨ht, he⟩ hp _ hs
    exact sawOther_step ht hz he hp hs

/-- A primary that registers at `/nodes/test`, and its standby. -/
def withPrimary (i : Bool) : Config :=
  if i then ini (str "zk_2") (str "test") else ini zk_1 (str "test1")

theorem withPrimary_notZhu : NotZhu (withPrimary false) where
  master := by decide
  node := by decide

end World

end ZookZhubei
