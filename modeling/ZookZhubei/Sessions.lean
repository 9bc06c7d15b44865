-- The sessions that a process leaves behind. A process drops its handle when
-- it learns that its session has ended, or when it crashes. Only a crash can
-- leave a session that is still alive.
import ZookZhubei.Provenance
import ZookZhubei.Holding

namespace ZookZhubei

open Runs

/-! ## The way to `recreate_session` -/

theorem goneCode_iff {rc : Int} : goneCode rc = true ↔ rc = ZSESSIONEXPIRED ∨ rc = ZINVALIDSTATE := by
  simp [goneCode, session_expried_exception, invalid_handle_exception]

theorem goneCode_of_loss {rc : Int} (h : rc ∈ lossCodes) : goneCode rc = false := by
  simp only [lossCodes, List.mem_cons, List.not_mem_nil, or_false] at h
  rcases h with rfl | rfl | rfl | rfl <;> rfl

/-- The main thread is on its way to `recreate_session`. -/
def Pc.condemned : Pc → Bool
  | .call .race (.replied r) | .call .race (.returned r) => goneCode r.rc
  | .failed rc => goneCode rc
  | .recreate => true
  | _ => false

namespace Inst

variable {c : Config} {now : Int} {x x' : Inst} {a : Act}

theorem next_condemned {pc : Pc} (h : x.next c now = some pc) (hp : pc.condemned = true) :
    x.pc.condemned = true ∨ is_unrecoverable x.h.state = true := by
  cases next_flow h with
  | checked k _ _ | queued k _ => cases k <;> cases hp
  | refused k rc hpc hrc hreq =>
    right
    by_contra hu
    have hor := Request_path_init_recoverable (k.op c).path (by simpa using hu)
    rw [hreq] at hor
    rw [hor.resolve_right hrc] at hp
    cases k <;> cases hp
  | failed r hpc _ _ =>
    rw [hpc]
    exact Or.inl hp
  | gone rc hpc hr =>
    rw [hpc]
    exact Or.inl hr
  | _ => cases hp

theorem abort_condemned {pc : Pc} {rc : Int} (hp : (pc.abort rc).condemned = true) :
    pc.condemned = true ∨ goneCode rc = true := by
  cases pc with
  | call k ph =>
    cases k with
    | race =>
      cases ph with
      | entry | checked => cases hp
      | returned r => exact Or.inl hp
      | queued | sent | replied r => exact Or.inr hp
    | _ => cases ph <;> cases hp
  | _ => exact Or.inl hp

/-- A process condemns its session only when its handle is dead. -/
theorem step_condemned (h : x.step c now a = some x')
    (hp : x'.pc.condemned = true ∨ is_unrecoverable x'.h.state = true) :
    (x.pc.condemned = true ∨ is_unrecoverable x.h.state = true) ∧
      x'.h.client_id = x.h.client_id := by
  have hkeep : ∀ {h h' : Handle}, KeepsState h h' → is_unrecoverable h'.state = true →
      is_unrecoverable h.state = true := by
    rintro h h' (he | ⟨_, hu⟩) h1
    · rw [he] at h1
      exact h1
    · rw [hu] at h1
      cases h1
  cases step_moves h with
  | ran pc hn hx =>
    subst hx
    refine ⟨?_, rfl⟩
    rcases hp with hp | hp
    · exact next_condemned hn hp
    · exact Or.inr hp
  | kept _ _ hpc hc hk =>
    rw [hpc] at hp
    exact ⟨hp.imp_right (hkeep hk), hc⟩
  | sent k hk hx =>
    subst hx
    refine ⟨?_, rfl⟩
    rcases hp with hp | hp
    · cases k <;> cases hp
    · exact Or.inr hp
  | received k r hk hx =>
    subst hx
    refine ⟨?_, rfl⟩
    rcases hp with hp | hp
    · rw [hk]
      left
      cases k with
      | race => exact hp
      | _ => cases hp
    · exact Or.inr hp
  | lost rc hrc hpc hc hk =>
    refine ⟨?_, hc⟩
    rcases hp with hp | hp
    · rw [hpc] at hp
      rcases abort_condemned hp with h1 | h1
      · exact Or.inl h1
      · rw [goneCode_of_loss hrc] at h1
        cases h1
    · exact Or.inr (hkeep hk hp)
  | recreated init _ _ hu hpc =>
    rcases hp with hp | hp
    · rcases hpc with he | ⟨e, he⟩ <;> rw [he] at hp <;> cases hp
    · rw [hu] at hp
      cases hp
  | restarted hx =>
    subst hx
    rcases hp with hp | hp <;> cases hp

end Inst

/-! ## Every deployment -/

namespace World

variable {ι : Type} {cfg : ι → Config} {w w' : World ι} {l : Label ι} {i : ι}

/-- The process has a session, and the server has ended it. -/
def SessionEnded (w : World ι) (i : ι) : Prop :=
  ∃ s, (w.inst i).h.client_id = some s ∧ w.srv.live s = false

/-- Whoever is on the way to `recreate_session`, or has a dead handle, has
lost its session. -/
def Retired (w : World ι) : Prop :=
  ∀ i, ((w.inst i).pc.condemned = true ∨ is_unrecoverable (w.inst i).h.state = true) →
    w.SessionEnded i

/-- A session that has ended stays so. -/
theorem Retired.srv (h : Retired w) {v : Server}
    (hv : ∀ i s, (w.inst i).h.client_id = some s → w.srv.live s = false → v.live s = false) :
    Retired { w with srv := v } := by
  intro j hj
  obtain ⟨s, hs, hl⟩ := h j hj
  exact ⟨s, hs, hv j s hs hl⟩

variable [DecidableEq ι]

theorem Retired.setInst (h : Retired w) {x' : Inst}
    (hx : (x'.pc.condemned = true ∨ is_unrecoverable x'.h.state = true) →
      ∃ s, x'.h.client_id = some s ∧ w.srv.live s = false) : Retired (w.setInst i x') := by
  intro j hj
  by_cases hij : j = i
  · subst hij
    simp only [setInst_self] at hj
    simpa [SessionEnded] using hx hj
  · simp only [SessionEnded, setInst_ne w x' hij] at hj ⊢
    exact h j hj

theorem Retired.served (h : Retired w) {t : Thread} {s : Session} {op : Op}
    (hph : (w.inst i).phase t = some .sent) (hc : (w.inst i).h.client_id = some s)
    (ho : (w.inst i).op (cfg i) t = some op) :
    Retired { w.setInst i ((w.inst i).setPhase (.replied (w.srv.apply s op).2) t) with
      srv := (w.srv.apply s op).1 } := by
  refine Retired.srv (v := (w.srv.apply s op).1) (Retired.setInst h ?_)
    fun j u _ hl => by rw [Server.apply_live]; exact hl
  intro hx
  rw [Inst.setPhase_h] at hx ⊢
  cases t with
  | completion =>
    rw [Inst.setPhase_completion_pc] at hx
    exact h i hx
  | main =>
    obtain ⟨k, hk⟩ := Inst.phase_main hph
    rw [Inst.setPhase_main _ hk] at hx
    rcases hx with hx | hx
    · cases k with
      | race => exact ⟨s, hc, Server.apply_gone (goneCode_iff.mp hx)⟩
      | _ => cases hx
    · exact h i (Or.inr hx)

/-- A refusal says nothing of the session. -/
theorem Retired.refused (h : Retired w) {t : Thread} {rc : Int} {op : Op}
    (hph : (w.inst i).phase t = some .sent) (hr : op.refusal rc = true) :
    Retired (w.setInst i ((w.inst i).setPhase (.replied (.err rc)) t)) := by
  refine Retired.setInst h fun hx => ?_
  rw [Inst.setPhase_h] at hx ⊢
  cases t with
  | completion =>
    rw [Inst.setPhase_completion_pc] at hx
    exact h i hx
  | main =>
    obtain ⟨k, hk⟩ := Inst.phase_main hph
    rw [Inst.setPhase_main _ hk] at hx
    rcases hx with hx | hx
    · obtain ⟨_, _, h1, h2⟩ := Server.refusal_rc hr
      cases k with
      | race => exact absurd (goneCode_iff.mp hx) (by simp [h1, h2])
      | _ => cases hx
    · exact h i (Or.inr hx)

theorem retired_step (ht : Traced cfg w) (h : Retired w) (hs : w.step cfg l = some w') :
    Retired w' := by
  cases step_trans hs with
  | act i a x' hx =>
    refine Retired.setInst (w := w) h fun hp => ?_
    obtain ⟨h1, h2⟩ := Inst.step_condemned hx hp
    rw [h2]
    exact h i h1
  | opened i timeOut hst hn =>
    intro j hj
    by_cases hij : j = i
    · -- a process with no session is not condemned, and it is connected now
      subst hij
      simp only [setInst_self] at hj
      rcases hj with hj | hj
      · obtain ⟨s, hs, _⟩ := h j (Or.inl hj)
        rw [hn] at hs
        cases hs
      · cases hj
    · simp only [SessionEnded, setInst_ne w _ hij] at hj ⊢
      obtain ⟨s, hs, hl⟩ := h j hj
      refine ⟨s, hs, ?_⟩
      rw [Server.openSession_live (ht.client_ne_next hs)]
      exact hl
  | reattached i timeOut s hst hc hl =>
    refine h.setInst ?_
    rintro (hp | hp)
    · obtain ⟨s', hs', hl'⟩ := h i (Or.inl hp)
      rw [hc] at hs'
      cases hs'
      exact ⟨s, rfl, hl'⟩
    · cases hp
  | expired i timeOut s hst hc hl => exact h.setInst fun _ => ⟨s, hc, hl⟩
  | served i t s op hph hc ho => exact h.served hph hc ho
  | refused i t rc s op hph _ _ _ hr => exact h.refused hph hr
  | late k s op _ => exact h.srv fun j t _ hl => by rw [Server.apply_live]; exact hl
  | dropped k _ => exact h
  | ended s _ =>
    refine h.srv fun j t _ hl => ?_
    by_contra hc
    have := (Server.expire_live (by simpa using hc)).2
    rw [hl] at this
    cases this
  | edited e v he =>
    refine h.srv fun j t _ hl => ?_
    rw [(Server.edit_sessions he).1]
    exact hl
  | tick n => exact h

theorem reach_retired (h : (system cfg).Reach w) : Retired w := by
  apply System.ReachBy.invariant_with (Q := Traced cfg) (P := Retired) _ _ _ h
  · intro s hs
    exact reach_traced hs
  · rintro s ⟨now, rfl⟩ i hp
    rcases hp with hp | hp <;> cases hp
  · intro s l s' ht hr _ hs
    exact retired_step ht hr hs

/-! ## One session at a time -/

/-- A new process of `i` starts only when the session of the old one, if it had
one, has ended. -/
def RestartsLate (i : ι) (w : World ι) (l : Label ι) : Prop :=
  l = .act i .restart → ∀ s ∈ (w.inst i).h.client_id, w.srv.live s = false

instance (i : ι) (w : World ι) (l : Label ι) : Decidable (RestartsLate i w l) :=
  inferInstanceAs (Decidable (_ → ∀ s ∈ (w.inst i).h.client_id, _))

/-- Of all the sessions of `i`, only the current one may be alive. -/
def OneSession (i : ι) (w : World ι) : Prop :=
  ∀ s, w.holder s = some i → w.srv.live s = true → (w.inst i).h.client_id = some s

theorem OneSession.act (h : OneSession i w) (hr : Retired w) {j : ι} {a : Act} {x' : Inst}
    (hg : RestartsLate i w (.act j a)) (hx : (w.inst j).step (cfg j) w.now a = some x')
    (late : List (Session × Op)) : OneSession i { w.setInst j x' with late } := by
  intro s hs hl
  have hc := h s hs hl
  by_cases hij : i = j
  · subst hij
    simp only [setInst_self]
    rcases Inst.step_client_id hx with he | ⟨_, ha⟩
    · rw [he]
      exact hc
    · -- the handle is dropped, so the session has ended
      exfalso
      have hdead : w.srv.live s = false := by
        rcases ha with rfl | ⟨init, rfl⟩
        · exact hg rfl s hc
        · obtain ⟨s', hs', hl'⟩ := hr i (Or.inl (by rw [(Inst.recreate_eq hx).1]; rfl))
          rw [hc] at hs'
          cases hs'
          exact hl'
      rw [setInst_srv] at hl
      rw [hdead] at hl
      cases hl
  · simp only [setInst_ne w x' hij]
    exact hc

/-- A change that keeps the session of every process. -/
theorem OneSession.keeps (h : OneSession i w) {j : ι} {x' : Inst}
    (hc : x'.h.client_id = (w.inst j).h.client_id) : OneSession i (w.setInst j x') := by
  intro s hs hl
  by_cases hij : i = j
  · subst hij
    simp only [setInst_self, hc]
    exact h s hs hl
  · simp only [setInst_ne w x' hij]
    exact h s hs hl

theorem oneSession_step (hr : Retired w) (h : OneSession i w)
    (hg : RestartsLate i w l) (hs : w.step cfg l = some w') : OneSession i w' := by
  cases step_trans hs with
  | act j a x' hx => exact h.act hr hg hx _
  | opened j timeOut _ hn =>
    intro s hs hl
    by_cases hne : s = w.srv.next
    · subst hne
      simp only [Function.update_self, Option.some.injEq] at hs
      subst hs
      simp only [setInst_self]
      rfl
    · simp only [Function.update_of_ne hne, Server.openSession_live hne] at hs hl
      have hc := h s hs hl
      by_cases hij : i = j
      · subst hij
        rw [hn] at hc
        cases hc
      · simp only [setInst_ne w _ hij]
        exact hc
  | reattached j timeOut s _ hc _ => exact h.keeps hc.symm
  | expired j timeOut s _ _ _ => exact h.keeps rfl
  | served j t s op _ _ _ =>
    have h1 : OneSession i { w with srv := (w.srv.apply s op).1 } := by
      intro u hu hl
      rw [Server.apply_live] at hl
      exact h u hu hl
    exact h1.keeps (by simp)
  | refused j t rc s op _ _ _ _ _ => exact h.keeps (by simp)
  | late k s op _ =>
    intro u hu hl
    rw [Server.apply_live] at hl
    exact h u hu hl
  | dropped k _ => exact h
  | ended s _ => exact fun u hu hl => h u hu (Server.expire_live hl).2
  | edited e v he =>
    intro u hu hl
    simp only [(Server.edit_sessions he).1] at hl
    exact h u hu hl
  | tick n => exact h

theorem reach_oneSession (h : (system cfg).ReachBy (RestartsLate i) w) : OneSession i w := by
  apply System.ReachBy.invariant_with (Q := Retired) (P := OneSession i) _ _ _ h
  · intro s hs
    exact reach_retired hs.reach
  · rintro s ⟨now, rfl⟩ u hu
    cases hu
  · intro s l s' hr ho hg hs
    exact oneSession_step hr ho hg hs

end World

end ZookZhubei
