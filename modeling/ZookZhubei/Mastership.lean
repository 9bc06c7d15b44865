-- Who may work as master. The laws of `run` and `work` over every
-- interleaving of any number of processes: a process that works, and whose
-- session is alive, owns the master node, as long as nobody takes over a node
-- with the data `zk_1` that is not its own.
import ZookZhubei.Holding
import ZookZhubei.Provenance

namespace ZookZhubei

open Runs

/-! ## The invariant -/

/-- Two requests on the wire are not both a delete of one session. -/
def OneDelete (a b : Session × Op) : Prop :=
  ∀ q q', a.2 = .delete q → b.2 = .delete q' → a.1 ≠ b.1

theorem OneDelete.symm {a b : Session × Op} (h : OneDelete a b) : OneDelete b a :=
  fun q q' hb ha he => h q' q ha hb he.symm

theorem pairwise_eraseIdx {α : Type} {R : α → α → Prop} {l : List α} {k : Nat} {a b : α}
    (hsymm : ∀ {a b}, R a b → R b a) (h : l.Pairwise R) (hk : l[k]? = some a)
    (hb : b ∈ l.eraseIdx k) : R a b := by
  obtain ⟨j, hjk, hj⟩ := List.mem_eraseIdx_iff_getElem?.mp hb
  obtain ⟨hk', rfl⟩ := List.getElem?_eq_some_iff.mp hk
  obtain ⟨hj', rfl⟩ := List.getElem?_eq_some_iff.mp hj
  rw [List.pairwise_iff_getElem] at h
  rcases Nat.lt_or_gt_of_ne hjk with hlt | hgt
  · exact hsymm (h j k hj' hk' hlt)
  · exact h k j hk' hj' hgt

/-- Of the two threads only the main thread deletes. -/
theorem Inst.orphans_once (c : Config) (x : Inst) : (x.orphans c).Pairwise OneDelete := by
  unfold Inst.orphans
  split
  · exact List.Pairwise.nil
  · rename_i s _
    rw [List.pairwise_filterMap]
    simp only [List.pairwise_cons, List.mem_singleton, List.not_mem_nil, forall_eq]
    refine ⟨?_, by simp, List.Pairwise.nil⟩
    rintro a _ b hb q q' _ hq'
    split at hb
    · obtain ⟨op, ho, rfl⟩ := Option.map_eq_some_iff.mp hb
      simp only at hq'
      subst hq'
      simp only [Inst.op] at ho
      split at ho <;> cases ho
    · cases hb

namespace World

variable {ι : Type}

/-- Every live session that holds, or that still has a delete on the wire, owns
the master node. The delete of a session is on the wire at most once, and its
process is doomed. -/
structure Owned (p : Str) (w : World ι) : Prop where
  session : ∀ i, (w.inst i).pc.holds (fun _ => true) = true → (w.inst i).h.client_id ≠ none
  holds : ∀ i s, (w.inst i).pc.holds (fun n => n.owner == some s) = true →
    (w.inst i).h.client_id = some s → w.srv.live s = true → w.srv.Owns p s
  late : ∀ s q, (s, .delete q) ∈ w.late → w.srv.live s = true → w.srv.Owns p s
  doomed : ∀ s q i, (s, .delete q) ∈ w.late → (w.inst i).h.client_id = some s →
    (w.inst i).pc.doomed = true
  once : w.late.Pairwise OneDelete

variable {cfg : ι → Config} {p : Str} {w w' : World ι} {l : Label ι}

theorem owned_start (now : Int) : Owned p (start cfg now) where
  session := by intro i h; cases h
  holds := by intro i s h; cases h
  late := by intro s q h; cases h
  doomed := by intro s q i h; cases h
  once := List.Pairwise.nil

/-- When `run` finds `zk_1`, the node that it read is one of its own session. -/
def ReadsOwn (cfg : ι → Config) (w : World ι) (l : Label ι) : Prop :=
  ∀ i ∈ l.runs, ∀ r ∈ (w.inst i).readBack, dataRead (cfg i) r = some zk_1 →
    ∃ n ∈ r.seen, ∃ s ∈ n.owner, (w.inst i).h.client_id = some s

instance (cfg : ι → Config) (w : World ι) (l : Label ι) : Decidable (ReadsOwn cfg w l) :=
  inferInstanceAs (Decidable (∀ i ∈ l.runs, ∀ r ∈ (w.inst i).readBack, _ →
    ∃ n ∈ r.seen, ∃ s ∈ n.owner, _))

/-- The condition, for every test that is true of the nodes of the own session. -/
theorem ReadsOwn.seen {i : ι} {a : Act} (hg : ReadsOwn cfg w (.act i a)) {own : Znode → Bool}
    (hown : ∀ n s, n.owner = some s → (w.inst i).h.client_id = some s → own n = true)
    (b : Option Znode)
    (r : Reply) (ha : a = .main) (hpc : (w.inst i).pc = .call (.read b) (.returned r))
    (hd : dataRead (cfg i) r = some zk_1) : r.seen.any own = true := by
  subst ha
  obtain ⟨n, hn, s, hs, hc⟩ := hg i rfl r (by rw [Inst.readBack, hpc]; rfl) hd
  rw [Option.mem_def.mp hn]
  exact hown n s hs hc

theorem Owned.sub_late (h : Owned p w) (k : Nat) : Owned p { w with late := w.late.eraseIdx k } where
  session := h.session
  holds := h.holds
  late := fun s q he => h.late s q (List.mem_of_mem_eraseIdx he)
  doomed := fun s q i he => h.doomed s q i (List.mem_of_mem_eraseIdx he)
  once := h.once.sublist (List.eraseIdx_sublist _ _)

/-- A request that is no delete takes the node from nobody. -/
theorem Owned.apply (h : Owned p w) {s : Session} {op : Op} (hop : op ≠ .delete p) :
    Owned p { w with srv := (w.srv.apply s op).1 } := by
  refine ⟨h.session, ?_, ?_, h.doomed, h.once⟩
  · intro j t hj hc hl
    rw [Server.apply_live] at hl
    exact (h.holds j t hj hc hl).apply fun hd => absurd hd hop
  · intro t q he hl
    rw [Server.apply_live] at hl
    exact (h.late t q he hl).apply fun hd => absurd hd hop

/-- The delete of an owner takes the node from nobody, when it is the owner's
last claim to it. -/
theorem Owned.deleted (h : Owned p w) {s : Session} (hs : w.srv.live s = true → w.srv.Owns p s)
    (hi : ∀ j, (w.inst j).h.client_id = some s →
      (w.inst j).pc.holds (fun n => n.owner == some s) = false)
    (hl : ∀ q, (s, .delete q) ∉ w.late) :
    Owned p { w with srv := (w.srv.apply s (.delete p)).1 } := by
  refine ⟨h.session, ?_, ?_, h.doomed, h.once⟩
  · intro j t hj hc ht
    rw [Server.apply_live] at ht
    refine (h.holds j t hj hc ht).apply fun _ hls => ⟨hs hls, ?_⟩
    rintro rfl
    rw [hi j hc] at hj
    cases hj
  · intro t q he ht
    rw [Server.apply_live] at ht
    refine (h.late t q he ht).apply fun _ hls => ⟨hs hls, ?_⟩
    rintro rfl
    exact hl q he

theorem Owned.ended (h : Owned p w) (s : Session) : Owned p { w with srv := w.srv.expire s } where
  session := h.session
  holds := by
    intro i t hi hc hl
    obtain ⟨hne, hl⟩ := Server.expire_live hl
    exact (h.holds i t hi hc hl).expire hne
  late := by
    intro t q he hl
    obtain ⟨hne, hl⟩ := Server.expire_live hl
    exact (h.late t q he hl).expire hne
  doomed := h.doomed
  once := h.once

/-- Other clients touch no node that has an owner. -/
theorem Owned.edited (h : Owned p w) {e : Edit} {v : Server} (he : w.srv.edit e = some v) :
    Owned p { w with srv := v } := by
  have hlive := (Server.edit_sessions he).1
  refine ⟨h.session, ?_, ?_, h.doomed, h.once⟩
  · intro i t hi hc hl
    simp only [hlive] at hl
    exact (h.holds i t hi hc hl).edit he
  · intro t q hq hl
    simp only [hlive] at hl
    exact (h.late t q hq hl).edit he

theorem Owned.lateApplied (h : Owned p w) {k : Nat} {s : Session} {op : Op}
    (hk : w.late[k]? = some (s, op)) :
    Owned p { w with srv := (w.srv.apply s op).1, late := w.late.eraseIdx k } := by
  have hmem := List.mem_of_getElem? hk
  by_cases hop : op = .delete p
  · subst hop
    refine (h.sub_late k).deleted (h.late s p hmem) ?_ ?_
    · intro j hj
      exact Pc.not_holds_of_doomed (h.doomed s p j hmem hj)
    · intro q he
      exact pairwise_eraseIdx OneDelete.symm h.once hk he p q rfl rfl rfl
  · exact (h.sub_late k).apply hop

variable [DecidableEq ι]

/-- A change of one process in its session, to a place it may hold at. -/
theorem Owned.setInst (h : Owned p w) {i : ι} {x' : Inst}
    (hc : x'.h.client_id = (w.inst i).h.client_id)
    (hsome : x'.pc.holds (fun _ => true) = true → (w.inst i).h.client_id ≠ none)
    (hh : ∀ s, x'.pc.holds (fun n => n.owner == some s) = true → (w.inst i).h.client_id = some s →
      w.srv.live s = true → w.srv.Owns p s)
    (hd : (w.inst i).pc.doomed = true → x'.pc.doomed = true) : Owned p (w.setInst i x') := by
  refine ⟨?_, ?_, h.late, ?_, h.once⟩
  · intro j hj
    by_cases hij : j = i
    · subst hij
      simp only [setInst_self] at hj ⊢
      rw [hc]
      exact hsome hj
    · simp only [setInst_ne w x' hij] at hj ⊢
      exact h.session j hj
  · intro j s hj hs hl
    by_cases hij : j = i
    · subst hij
      simp only [setInst_self] at hj hs
      exact hh s hj (hc ▸ hs) hl
    · simp only [setInst_ne w x' hij] at hj hs
      exact h.holds j s hj hs hl
  · intro s q j he hs
    by_cases hij : j = i
    · subst hij
      simp only [setInst_self] at hs ⊢
      exact hd (h.doomed s q j he (hc ▸ hs))
    · simp only [setInst_ne w x' hij] at hs ⊢
      exact h.doomed s q j he hs

/-- The same when the process gains nothing. -/
theorem Owned.keeps (h : Owned p w) {i : ι} {x' : Inst}
    (hc : x'.h.client_id = (w.inst i).h.client_id)
    (hh : ∀ own, x'.pc.holds own = true → (w.inst i).pc.holds own = true)
    (hd : (w.inst i).pc.doomed = true → x'.pc.doomed = true) : Owned p (w.setInst i x') :=
  h.setInst hc (fun h1 => h.session i (hh _ h1)) (fun s h1 => h.holds i s (hh _ h1)) hd

theorem Owned.act (h : Owned p w) (ht : Traced cfg w) {i : ι} {a : Act} {x' : Inst}
    (hg : ReadsOwn cfg w (.act i a)) (hx : (w.inst i).step (cfg i) w.now a = some x') :
    Owned p { w.setInst i x' with
      late := w.late ++ if a.drops then (w.inst i).orphans (cfg i) else [] } := by
  refine ⟨?_, ?_, ?_, ?_, ?_⟩
  · intro j hj
    by_cases hij : j = i
    · subst hij
      simp only [setInst_self] at hj ⊢
      obtain ⟨h1, h2⟩ := Inst.step_holds (hg.seen fun _ _ _ _ => rfl) hx hj
      rw [h2]
      exact h.session j h1
    · simp only [setInst_ne w x' hij] at hj ⊢
      exact h.session j hj
  · intro j s hj hc hl
    by_cases hij : j = i
    · subst hij
      simp only [setInst_self] at hj hc
      rcases Inst.step_client_id hx with h2 | ⟨h2, _⟩
      · rw [h2] at hc
        have hown : ∀ (n : Znode) t, n.owner = some t → (w.inst j).h.client_id = some t →
            (n.owner == some s) = true := by
          intro n t ho ht
          rw [hc] at ht
          cases ht
          rw [ho]
          exact beq_self_eq_true _
        exact h.holds j s (Inst.step_holds (hg.seen hown) hx hj).1 hc hl
      · rw [h2] at hc
        cases hc
    · simp only [setInst_ne w x' hij] at hj hc
      exact h.holds j s hj hc hl
  · intro s q he hl
    rcases List.mem_append.mp he with he | he
    · exact h.late s q he hl
    · obtain ⟨_, hc, via, zhu, hpc⟩ := Inst.dropped_delete he
      exact h.holds i s (by rw [hpc]; rfl) hc hl
  · intro s q j he hc
    by_cases hij : j = i
    · subst hij
      simp only [setInst_self] at hc ⊢
      have hsome : x'.h.client_id ≠ none := by simp [hc]
      rcases List.mem_append.mp he with he | he
      · rcases Inst.step_client_id hx with h1 | ⟨h1, _⟩
        · exact (Inst.step_doomed hx (h.doomed s q j he (h1 ▸ hc))).resolve_right hsome
        · exact absurd h1 hsome
      · obtain ⟨ha, _, via, zhu, hpc⟩ := Inst.dropped_delete he
        exact (Inst.drop_doomed hx ha hpc).resolve_right hsome
    · simp only [setInst_ne w x' hij] at hc ⊢
      rcases List.mem_append.mp he with he | he
      · exact h.doomed s q j he hc
      · exact absurd (ht.client_inj hc (Inst.dropped_delete he).2.1) hij
  · rw [List.pairwise_append]
    refine ⟨h.once, ?_, ?_⟩
    · split
      · exact Inst.orphans_once _ _
      · exact List.Pairwise.nil
    · rintro ⟨s, op⟩ ha ⟨s', op'⟩ hb q q' hq hq' he
      simp only at hq hq' he
      subst hq hq' he
      obtain ⟨_, hc, via, zhu, hpc⟩ := Inst.dropped_delete hb
      have hd := h.doomed s q i ha hc
      rw [hpc] at hd
      cases hd

theorem Owned.opened (h : Owned p w) (ht : Traced cfg w) (i : ι) (x' : Inst)
    (hn : (w.inst i).h.client_id = none) (hpc : x'.pc = (w.inst i).pc)
    (hx : x'.h.client_id = some w.srv.next) (holder : Session → Option ι) :
    Owned p { w.setInst i x' with srv := w.srv.openSession, holder } := by
  have hidle : (w.inst i).pc.holds (fun _ => true) = false := by
    by_contra hh
    exact h.session i (by simpa using hh) hn
  have hfresh : ∀ s q, (s, Op.delete q) ∈ w.late → s ≠ w.srv.next := by
    intro s q he
    obtain ⟨j, hj, _⟩ := ht.late_writer _ _ he
    exact ht.holder_ne_next hj
  refine ⟨?_, ?_, ?_, ?_, h.once⟩
  · intro j hj
    by_cases hij : j = i
    · subst hij
      simp only [setInst_self] at hj ⊢
      simp [hx]
    · simp only [setInst_ne w x' hij] at hj ⊢
      exact h.session j hj
  · intro j s hj hs hl
    by_cases hij : j = i
    · subst hij
      simp only [setInst_self, hpc] at hj
      rw [Pc.holds_mono (fun _ _ => rfl) hj] at hidle
      cases hidle
    · simp only [setInst_ne w x' hij] at hj hs
      rw [Server.openSession_live (ht.client_ne_next hs)] at hl
      exact h.holds j s hj hs hl
  · intro s q he hl
    rw [Server.openSession_live (hfresh s q he)] at hl
    exact h.late s q he hl
  · intro s q j he hs
    by_cases hij : j = i
    · subst hij
      simp only [setInst_self, hx, Option.some.injEq] at hs
      exact absurd hs.symm (hfresh s q he)
    · simp only [setInst_ne w x' hij] at hs ⊢
      exact h.doomed s q j he hs

variable (hp : ∀ i, (cfg i).master_path = p)
include hp

/-- Only the main thread of a process deletes, and only the master node. -/
theorem Owned.served (h : Owned p w) (ht : Traced cfg w) {i : ι} {t : Thread} {s : Session}
    {op : Op} (hph : (w.inst i).phase t = some .sent) (hc : (w.inst i).h.client_id = some s)
    (hop : (w.inst i).op (cfg i) t = some op) :
    Owned p { w.setInst i ((w.inst i).setPhase (.replied (w.srv.apply s op).2) t) with
      srv := (w.srv.apply s op).1 } := by
  cases t with
  | completion =>
    have hne : op ≠ .delete p := by
      rintro rfl
      simp only [Inst.op] at hop
      split at hop <;> cases hop
    refine Owned.keeps (h.apply hne) (by simp) ?_ ?_
    · intro own hh
      simpa using hh
    · intro hd
      simpa using hd
  | main =>
    obtain ⟨k, hk⟩ := Inst.phase_main hph
    simp only [Inst.op, hk, Option.some.injEq] at hop
    subst hop
    rw [Inst.setPhase_main _ hk]
    have hsent : (w.inst i).pc.doomed = false := by
      rw [hk]
      cases k <;> rfl
    cases k with
    | race =>
      refine Owned.setInst (h.apply (by simp [Call.op])) rfl ?_ ?_ (by simp [hsent])
      · simp [hc]
      · intro t hh hct hl
        rw [hc] at hct
        cases hct
        rw [← hp i]
        exact Server.apply_create_ok (by simpa [Pc.holds, Call.op] using hh)
    | read b =>
      refine Owned.setInst (h.apply (by simp [Call.op])) rfl ?_ ?_ (by simp [hsent])
      · simp [hc]
      · intro t hh hct hl
        rw [← hp i]
        obtain ⟨n, hn, ho⟩ := (Option.any_eq_true _ _).mp hh
        refine ⟨n, Server.apply_keeps (Server.apply_seen hn) (by simp [Call.op]), by simpa using ho⟩
    | exist via =>
      refine Owned.keeps (h.apply (by simp [Call.op])) rfl ?_ (by simp [hsent])
      intro own hh
      rw [hk]
      exact hh
    | delete via zhu =>
      have hop : (Call.delete via zhu).op (cfg i) = .delete p := by simp [Call.op, hp]
      rw [hop]
      have h1 : Owned p (w.setInst i { w.inst i with
          pc := .call (.delete via zhu) (.replied (w.srv.apply s (.delete p)).2) }) :=
        h.setInst rfl (by intro hh; cases hh) (by intro t hh; cases hh) (by simp [hsent])
      refine h1.deleted (fun hl => h.holds i s (by rw [hk]; rfl) hc hl) ?_ ?_
      · intro j hj
        by_cases hij : j = i
        · subst hij
          simp only [setInst_self]
          rfl
        · simp only [setInst_ne w _ hij] at hj
          exact absurd (ht.client_inj hj hc) hij
      · intro q he
        rw [h.doomed s q i he hc] at hsent
        cases hsent

omit hp in
/-- A request that is refused gives the process nothing. -/
theorem Owned.refused (h : Owned p w) {i : ι} {t : Thread} {rc : Int} {op : Op}
    (hph : (w.inst i).phase t = some .sent) (hr : op.refusal rc = true) :
    Owned p (w.setInst i ((w.inst i).setPhase (.replied (.err rc)) t)) := by
  refine h.keeps (by simp) ?_ ?_
  · intro own hh
    cases t with
    | completion => simpa using hh
    | main =>
      obtain ⟨k, hk⟩ := Inst.phase_main hph
      rw [Inst.setPhase_main _ hk] at hh
      rw [hk]
      cases k with
      | race => simp [Pc.holds, (Server.refusal_rc hr).1] at hh
      | exist via => rfl
      | _ => cases hh
  · intro hd
    cases t with
    | completion => simpa using hd
    | main =>
      obtain ⟨k, hk⟩ := Inst.phase_main hph
      rw [hk] at hd
      cases k <;> cases hd

theorem owned_step (ht : Traced cfg w) (h : Owned p w) (hg : ReadsOwn cfg w l)
    (hs : w.step cfg l = some w') : Owned p w' := by
  cases step_trans hs with
  | act i a x' hx => exact h.act ht hg hx
  | opened i timeOut _ hn =>
    exact h.opened ht i { w.inst i with h := (w.inst i).h.established _ timeOut } hn rfl rfl _
  | reattached i timeOut s _ hc _ => exact h.keeps hc.symm (fun _ hh => hh) id
  | expired i timeOut s _ hc _ =>
    exact h.keeps rfl (fun _ hh => Pc.abort_holds (by decide) hh) (Pc.abort_doomed _)
  | served i t s op hph hc ho => exact h.served hp ht hph hc ho
  | refused i t rc s op hph _ _ _ hr => exact h.refused hph hr
  | late k s op hk => exact h.lateApplied hk
  | dropped k _ => exact h.sub_late k
  | ended s _ => exact h.ended s
  | edited e v he => exact h.edited he
  | tick n => exact { h with }

/-- Every run in which `run` takes over only nodes of its own session. -/
theorem reach_owned (h : (system cfg).ReachBy (ReadsOwn cfg) w) : Owned p w := by
  apply System.ReachBy.invariant_with (Q := Traced cfg) (P := Owned p) _ _ _ h
  · intro s hs
    exact reach_traced hs.reach
  · rintro s ⟨now, rfl⟩
    exact owned_start now
  · intro s l s' ht ho hg hs
    exact owned_step hp ht ho hg hs

end World

/-! ## One master -/

namespace World

variable {ι : Type} {cfg : ι → Config} {p : Str} {w : World ι}

/-- The process works, and the server has not ended its session. -/
def isMaster (w : World ι) (i : ι) : Bool :=
  (w.inst i).pc.working && (w.inst i).h.client_id.any w.srv.live

theorem isMaster_session {i : ι} (h : w.isMaster i = true) :
    (w.inst i).pc.working = true ∧ ∃ s, (w.inst i).h.client_id = some s ∧ w.srv.live s = true := by
  simp only [isMaster, Bool.and_eq_true, Option.any_eq_true] at h
  exact h

/-- A master owns the master node. -/
theorem Owned.isMaster (h : Owned p w) {i : ι} (hi : w.isMaster i = true) :
    ∃ s, (w.inst i).h.client_id = some s ∧ w.srv.Owns p s := by
  obtain ⟨hw, s, hc, hl⟩ := isMaster_session hi
  exact ⟨s, hc, h.holds i s (Pc.holds_of_working hw) hc hl⟩

variable [DecidableEq ι]

/-- In every run in which `zk_1` is only ever read from a node of the reader's
own session, at most one process works in a live session. -/
theorem at_most_one_master (hp : ∀ i, (cfg i).master_path = p)
    (h : (system cfg).ReachBy (ReadsOwn cfg) w) {i j : ι} (hi : w.isMaster i = true)
    (hj : w.isMaster j = true) : i = j := by
  have ho := reach_owned hp h
  obtain ⟨s, hs, h1⟩ := ho.isMaster hi
  obtain ⟨t, ht, h2⟩ := ho.isMaster hj
  rw [h1.unique h2] at hs
  exact (reach_traced h.reach).client_inj hs ht

/-- The process with `zk_1` wins the race and works. -/
def winsRace : List (Label Bool) := connects false ++ [.act false .main] ++ calls false

set_option maxRecDepth 10000 in
theorem at_most_one_master_of_winsRace :
    ∃ w : World Bool, (system pair).ReachBy (ReadsOwn pair) w ∧ w.isMaster false = true ∧
      ∀ j, w.isMaster j = true → false = j := by
  obtain ⟨w, hw, ht⟩ := System.ReachBy.of_run (M := system pair) (G := ReadsOwn pair)
    (winsRace) (fun w => w.isMaster false) (.start ⟨1000, rfl⟩) (by decide)
  exact ⟨w, hw, ht, fun j hj => at_most_one_master (p := str "/master")
    (by intro i; cases i <;> rfl) hw ht hj⟩

/-- With no such condition there can be two masters: the standby reads the
`zk_1` of the master, takes it for its own, and works. -/
theorem two_masters : ¬ ∀ cfg : Bool → Config,
    (∀ i j, (cfg i).master_path = (cfg j).master_path) →
    (∀ i j, i ≠ j → (cfg i).master_data ≠ (cfg j).master_data) →
    ∀ w, (system cfg).Reach w → ∀ i j, w.isMaster i = true → w.isMaster j = true → i = j := by
  intro h
  obtain ⟨w, hw, ht⟩ := System.Reach.of_run (M := system pair)
    (winsRace ++ [.act false .main] ++ connects true ++ [.act true .main] ++ calls true ++
      calls true ++ [.act true .main])
    (fun w => w.isMaster false && w.isMaster true) ⟨1000, rfl⟩
    (by set_option maxRecDepth 10000 in decide)
  simp only [Bool.and_eq_true] at ht
  exact absurd (h pair (by decide) (by decide) w hw false true ht.1 ht.2) (by decide)

/-! ## The race path -/

/-- No read of `run` comes back with `zk_1`. -/
def NoTakeover (cfg : ι → Config) (w : World ι) (l : Label ι) : Prop :=
  ∀ i ∈ l.runs, ∀ r ∈ (w.inst i).readBack, dataRead (cfg i) r ≠ some zk_1

instance (cfg : ι → Config) (w : World ι) (l : Label ι) : Decidable (NoTakeover cfg w l) :=
  inferInstanceAs (Decidable (∀ i ∈ l.runs, ∀ r ∈ (w.inst i).readBack, _))

omit [DecidableEq ι] in
theorem NoTakeover.readsOwn {l : Label ι} (h : NoTakeover cfg w l) : ReadsOwn cfg w l :=
  fun i hi r hr hd => absurd hd (h i hi r hr)

/-- The request that a step makes the server apply, and its session. -/
def request (cfg : ι → Config) (w : World ι) : Label ι → Option (Session × Op)
  | .serve i t => match (w.inst i).h.client_id, (w.inst i).op (cfg i) t with
    | some s, some op => some (s, op)
    | _, _ => none
  | .late k => w.late[k]?
  | _ => none

omit [DecidableEq ι] in
theorem Traced.request_mem (h : Traced cfg w) {l : Label ι} {s : Session} {op : Op}
    (hr : w.request cfg l = some (s, op)) : ∃ i, op ∈ (cfg i).ops := by
  unfold request at hr
  split at hr
  · split at hr
    · rename_i i t _ _ _ _ _ ho
      cases hr
      exact ⟨i, Inst.op_mem ho⟩
    · cases hr
  · obtain ⟨i, _, hi⟩ := h.late_writer s op (List.mem_of_getElem? hr)
    exact ⟨i, hi⟩
  · cases hr

/-- A delete that takes a node away takes one of its own session. -/
theorem Owned.delete (h : Owned p w) {l : Label ι} {w' : World ι} {s : Session} {n : Znode}
    (hs : w.step cfg l = some w')
    (hr : w.request cfg l = some (s, .delete p)) (hn : w.srv.nodes p = some n)
    (hgone : w'.srv.nodes p ≠ some n) : n.owner = some s := by
  -- a delete that changes a node is one of a live session
  have hlive : ∀ op, (w.srv.apply s op).1.nodes p ≠ some n → w.srv.live s = true := by
    intro op hne
    by_contra hl
    rw [Server.apply_ended (by simpa using hl)] at hne
    exact hne hn
  have hown : w.srv.Owns p s := by
    cases step_trans hs with
    | served i t s' op hph hc ho =>
      simp only [request, hc, ho, Option.some.injEq, Prod.mk.injEq] at hr
      obtain ⟨rfl, rfl⟩ := hr
      obtain ⟨via, zhu, hpc, _⟩ := Inst.op_delete hph ho
      exact h.holds i s' (by rw [hpc]; rfl) hc (hlive _ hgone)
    | late k s' op hk =>
      simp only [request, hk, Option.some.injEq, Prod.mk.injEq] at hr
      obtain ⟨rfl, rfl⟩ := hr
      exact h.late s' p (List.mem_of_getElem? hk) (hlive _ hgone)
    | _ => cases hr
  obtain ⟨m, hm, ho⟩ := hown
  rw [hn] at hm
  cases hm
  exact ho

/-- In every run in which `work` is only entered by a race that was won, a
master owns the master node, and no delete takes the node of another one. -/
theorem a_master_owns_its_node (hp : ∀ i, (cfg i).master_path = p)
    (h : (system cfg).ReachBy (NoTakeover cfg) w) :
    (∀ i s, (w.inst i).pc.working = true → (w.inst i).h.client_id = some s →
      w.srv.live s = true → w.srv.Owns p s) ∧
    (∀ l w' s q n, w.step cfg l = some w' → w.request cfg l = some (s, .delete q) →
      w.srv.nodes q = some n → w'.srv.nodes q ≠ some n → n.owner = some s) := by
  have hr : (system cfg).ReachBy (ReadsOwn cfg) w := h.mono fun _ _ hg => hg.readsOwn
  have ho := reach_owned hp hr
  refine ⟨?_, ?_⟩
  · intro i s hi hc hl
    exact ho.holds i s (Pc.holds_of_working hi) hc hl
  · intro l w' s q n hs hq hn hgone
    obtain ⟨i, hi⟩ := (reach_traced hr.reach).request_mem hq
    have hqp : q = p := by simpa [Config.ops, hp] using hi
    subst hqp
    exact ho.delete hs hq hn hgone

set_option maxRecDepth 10000 in
theorem a_master_owns_its_node_of_winsRace :
    ∃ w : World Bool, (system pair).ReachBy (NoTakeover pair) w ∧
      (w.inst false).pc.working = true ∧ w.srv.Owns (str "/master") 0 := by
  obtain ⟨w, hw, ht⟩ := System.ReachBy.of_run (M := system pair) (G := NoTakeover pair)
    (winsRace)
    (fun w => (w.inst false).pc.working && (w.inst false).h.client_id == some 0 &&
      w.srv.live 0) (.start ⟨1000, rfl⟩) (by decide)
  simp only [Bool.and_eq_true, beq_iff_eq] at ht
  obtain ⟨⟨h1, h2⟩, h3⟩ := ht
  have hp : ∀ i, (pair i).master_path = str "/master" := by intro i; cases i <;> rfl
  exact ⟨w, hw, h1, (a_master_owns_its_node hp hw).1 false 0 h1 h2 h3⟩

end World

end ZookZhubei
