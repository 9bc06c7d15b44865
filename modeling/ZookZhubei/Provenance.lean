-- Who holds which session, and who wrote which node. Every session belongs to
-- one process, every ephemeral node is alive as long as its owner, and a
-- process only writes the nodes of its own configuration.
import ZookZhubei.Actions

namespace ZookZhubei

open Runs

/-! ## The invariant -/

namespace World

variable {ι : Type}

/-- The session, the owner and the writer of everything are known. The root is
there, and it is nobody's. -/
structure Traced (cfg : ι → Config) (w : World ι) : Prop where
  client : ∀ i s, (w.inst i).h.client_id = some s → w.holder s = some i
  unborn : ∀ s, w.srv.next ≤ s → w.holder s = none ∧ w.srv.live s = false
  root : ∃ n, w.srv.nodes rootPath = some n ∧ n.owner = none
  node_live : ∀ q n s, w.srv.nodes q = some n → n.owner = some s → w.srv.live s = true
  node_zxid : ∀ q n, w.srv.nodes q = some n → n.czxid < w.srv.zxid
  node_writer : ∀ q n s, w.srv.nodes q = some n → n.owner = some s →
    ∃ i, w.holder s = some i ∧ .create q n.data ∈ (cfg i).ops
  late_writer : ∀ s op, (s, op) ∈ w.late → ∃ i, w.holder s = some i ∧ op ∈ (cfg i).ops

variable {cfg : ι → Config} {w w' : World ι} {l : Label ι}

theorem traced_start (now : Int) : Traced cfg (start cfg now) := by
  have hroot : ∀ q n, (start cfg now).srv.nodes q = some n → n.owner = none ∧ n.czxid = 0 := by
    intro q n h
    simp only [start, Server.start] at h
    split at h
    · cases h
      exact ⟨rfl, rfl⟩
    · cases h
  refine ⟨?_, fun _ _ => ⟨rfl, rfl⟩, ⟨_, rfl, rfl⟩, ?_, ?_, ?_, ?_⟩
  · intro i s h
    cases h
  · intro q n s h ho
    rw [(hroot q n h).1] at ho
    cases ho
  · intro q n h
    rw [(hroot q n h).2]
    exact Nat.one_pos
  · intro q n s h ho
    rw [(hroot q n h).1] at ho
    cases ho
  · intro s op h
    cases h

/-- Two processes never share a session. -/
theorem Traced.client_inj (h : Traced cfg w) {i j : ι} {s : Session}
    (hi : (w.inst i).h.client_id = some s) (hj : (w.inst j).h.client_id = some s) : i = j := by
  have h1 := h.client i s hi
  rw [h.client j s hj] at h1
  cases h1
  rfl

/-- The next session to give out is nobody's. -/
theorem Traced.holder_ne_next (h : Traced cfg w) {i : ι} {s : Session}
    (hs : w.holder s = some i) : s ≠ w.srv.next := by
  rintro rfl
  rw [(h.unborn _ (Nat.le_refl _)).1] at hs
  cases hs

theorem Traced.client_ne_next (h : Traced cfg w) {i : ι} {s : Session}
    (hs : (w.inst i).h.client_id = some s) : s ≠ w.srv.next :=
  h.holder_ne_next (h.client i s hs)

/-- A request of a known process keeps what is known of the nodes. -/
theorem Traced.apply (h : Traced cfg w) {i : ι} {s : Session} {op : Op}
    (hs : w.holder s = some i) (hop : op ∈ (cfg i).ops) :
    Traced cfg { w with srv := (w.srv.apply s op).1 } where
  client := h.client
  unborn := by simpa using h.unborn
  root := by
    obtain ⟨n, hn, ho⟩ := h.root
    exact ⟨n, Server.apply_keeps_root hn, ho⟩
  node_live := by
    intro q n t hn ht
    simp only [Server.apply_live]
    rcases Server.apply_nodes_some hn with h1 | ⟨_, ho, _, hl, _⟩
    · exact h.node_live q n t h1 ht
    · rw [ho] at ht
      cases ht
      exact hl
  node_zxid := by
    intro q n hn
    by_cases h1 : w.srv.nodes q = some n
    · exact Nat.lt_of_lt_of_le (h.node_zxid q n h1) (Server.apply_zxid_le _ _ _)
    · exact Server.apply_czxid hn h1
  node_writer := by
    intro q n t hn ht
    rcases Server.apply_nodes_some hn with h1 | ⟨rfl, ho, _, _, _⟩
    · exact h.node_writer q n t h1 ht
    · rw [ho] at ht
      cases ht
      exact ⟨i, hs, hop⟩
  late_writer := h.late_writer

/-- Another client brings no node with an owner. -/
theorem Traced.edited (h : Traced cfg w) {e : Edit} {v : Server} (he : w.srv.edit e = some v) :
    Traced cfg { w with srv := v } := by
  obtain ⟨hl, hn, hz⟩ := Server.edit_sessions he
  have hold : ∀ q n s, v.nodes q = some n → n.owner = some s → w.srv.nodes q = some n := by
    intro q n s hq ho
    rcases Server.edit_nodes_some he hq with h1 | ⟨_, ho', _⟩
    · exact h1
    · rw [ho'] at ho
      cases ho
  refine ⟨h.client, ?_, ?_, ?_, ?_, ?_, h.late_writer⟩
  · simp only [hl, hn]
    exact h.unborn
  · obtain ⟨n, hn, ho⟩ := h.root
    exact ⟨n, Server.edit_keeps he hn (Or.inr rfl), ho⟩
  · intro q n s hq ho
    simp only [hl]
    exact h.node_live q n s (hold q n s hq ho) ho
  · intro q n hq
    rcases Server.edit_nodes_some he hq with h1 | ⟨_, _, hc, hz', _⟩
    · exact Nat.lt_of_lt_of_le (h.node_zxid q n h1) hz
    · simp only [hc, hz']
      exact Nat.lt_succ_self _
  · intro q n s hq ho
    exact h.node_writer q n s (hold q n s hq ho) ho

theorem Traced.sub_late (h : Traced cfg w) {late' : List (Session × Op)}
    (hl : ∀ e ∈ late', e ∈ w.late) : Traced cfg { w with late := late' } :=
  { h with late_writer := fun s op he => h.late_writer s op (hl _ he) }

theorem Traced.ended (h : Traced cfg w) (s : Session) :
    Traced cfg { w with srv := w.srv.expire s } where
  client := h.client
  unborn := by
    intro t ht
    refine ⟨(h.unborn t ht).1, ?_⟩
    by_contra hl
    have hl := (Server.expire_live (by simpa using hl)).2
    rw [(h.unborn t ht).2] at hl
    cases hl
  root := by
    obtain ⟨n, hn, ho⟩ := h.root
    exact ⟨n, Server.expire_keeps hn (by simp [ho]), ho⟩
  node_live := by
    intro q n t hn ht
    obtain ⟨h1, h2⟩ := Server.expire_nodes hn
    have hne : t ≠ s := by
      rintro rfl
      exact h2 ht
    simp only [Server.expire, Function.update_of_ne hne]
    exact h.node_live q n t h1 ht
  node_zxid := fun q n hn => h.node_zxid q n (Server.expire_nodes hn).1
  node_writer := fun q n t hn => h.node_writer q n t (Server.expire_nodes hn).1
  late_writer := h.late_writer

variable [DecidableEq ι]

/-- A change of one process that keeps or forgets its session, with requests
of its own added to the wire. -/
theorem Traced.setInst (h : Traced cfg w) {i : ι} {x' : Inst} {late' : List (Session × Op)}
    (hc : ∀ s, x'.h.client_id = some s → (w.inst i).h.client_id = some s)
    (hl : ∀ s op, (s, op) ∈ late' → ∃ j, w.holder s = some j ∧ op ∈ (cfg j).ops) :
    Traced cfg { w.setInst i x' with late := late' } where
  client := by
    intro j s hj
    by_cases hij : j = i
    · subst hij
      simp only [setInst_self] at hj
      exact h.client j s (hc s hj)
    · exact h.client j s (by simpa [setInst_ne w x' hij] using hj)
  unborn := h.unborn
  root := h.root
  node_live := h.node_live
  node_zxid := h.node_zxid
  node_writer := h.node_writer
  late_writer := hl

theorem Traced.opened (h : Traced cfg w) (i : ι) (x' : Inst)
    (hx : x'.h.client_id = some w.srv.next) :
    Traced cfg { w.setInst i x' with srv := w.srv.openSession,
                                     holder := Function.update w.holder w.srv.next (some i) } := by
  have hold : ∀ s j, w.holder s = some j →
      Function.update w.holder w.srv.next (some i) s = some j := by
    intro s j hs
    rw [Function.update_of_ne (h.holder_ne_next hs), hs]
  refine ⟨?_, ?_, h.root, ?_, h.node_zxid, ?_, ?_⟩
  · intro j s hj
    by_cases hij : j = i
    · subst hij
      simp only [setInst_self, hx, Option.some.injEq] at hj
      subst hj
      simp
    · exact hold s j (h.client j s (by simpa [setInst_ne w x' hij] using hj))
  · intro s hs
    have hs' : w.srv.next + 1 ≤ s := hs
    have hne : s ≠ w.srv.next := Nat.ne_of_gt hs'
    simp only [Function.update_of_ne hne, Server.openSession_live hne]
    exact h.unborn s (Nat.le_of_succ_le hs')
  · intro q n s hn hs
    obtain ⟨j, hj, _⟩ := h.node_writer q n s hn hs
    rw [Server.openSession_live (h.holder_ne_next hj)]
    exact h.node_live q n s hn hs
  · intro q n s hn hs
    obtain ⟨j, hj, ho⟩ := h.node_writer q n s hn hs
    exact ⟨j, hold _ j hj, ho⟩
  · intro s op he
    obtain ⟨j, hj, ho⟩ := h.late_writer s op he
    exact ⟨j, hold _ j hj, ho⟩

theorem traced_step (h : Traced cfg w) (hs : w.step cfg l = some w') : Traced cfg w' := by
  cases step_trans hs with
  | act i a x' hx =>
    apply h.setInst
    · intro s hs'
      rcases Inst.step_client_id hx with he | ⟨he, _⟩
      · rw [← he]
        exact hs'
      · rw [he] at hs'
        cases hs'
    · intro s op he
      rcases List.mem_append.mp he with he | he
      · exact h.late_writer s op he
      · split at he
        · obtain ⟨hc, t, _, ho⟩ := Inst.orphans_mem he
          exact ⟨i, h.client i s hc, Inst.op_mem ho⟩
        · cases he
  | opened i timeOut _ _ => exact h.opened i _ rfl
  | reattached i timeOut s _ hc _ =>
    exact h.setInst (fun t ht => by cases ht; exact hc) h.late_writer
  | expired i timeOut s _ hc _ =>
    exact h.setInst (fun t ht => by simpa [Inst.expire] using ht) h.late_writer
  | served i t s op _ hc ho =>
    have h1 := h.apply (h.client i s hc) (Inst.op_mem ho)
    exact h1.setInst (fun t ht => by simpa using ht) h1.late_writer
  | refused i t rc s op _ _ _ _ _ => exact h.setInst (fun t ht => by simpa using ht) h.late_writer
  | late k s op hk =>
    obtain ⟨i, hi, ho⟩ := h.late_writer s op (List.mem_of_getElem? hk)
    exact (h.apply hi ho).sub_late fun e he => List.mem_of_mem_eraseIdx he
  | dropped k _ => exact h.sub_late fun e he => List.mem_of_mem_eraseIdx he
  | ended s _ => exact h.ended s
  | edited e v he => exact h.edited he
  | tick n => exact { h with }

/-- In every deployment, in every state it reaches, the session, the owner and
the writer of everything are known. -/
theorem reach_traced (h : (system cfg).Reach w) : Traced cfg w := by
  apply System.Reach.invariant (P := Traced cfg) _ _ h
  · rintro s ⟨now, rfl⟩
    exact traced_start now
  · intro s l s' hp hs
    exact traced_step hp hs

end World

/-! ## The nodes of other clients -/

namespace World

variable {ι : Type} {cfg : ι → Config} {w w' : World ι} {l : Label ι}

/-- No other client makes a node at `q` with data in `P`. -/
def LeavesAlone (q : Str) (P : Str → Prop) (l : Label ι) : Prop :=
  ∀ e ∈ l.makes, e.1 = q → ¬ P e.2

instance (q : Str) (P : Str → Prop) [DecidablePred P] (l : Label ι) :
    Decidable (LeavesAlone q P l) :=
  inferInstanceAs (Decidable (∀ e ∈ l.makes, _ → ¬ P e.2))

/-- Every node at `q` with data in `P` has an owner. -/
def Ephemeral (q : Str) (P : Str → Prop) (w : World ι) : Prop :=
  ∀ n, w.srv.nodes q = some n → P n.data → n.owner ≠ none

variable [DecidableEq ι]

theorem ephemeral_step {q : Str} {P : Str → Prop} (h : Ephemeral q P w)
    (hl : LeavesAlone q P l) (hs : w.step cfg l = some w') : Ephemeral q P w' := by
  have happly : ∀ s op n, (w.srv.apply s op).1.nodes q = some n → P n.data → n.owner ≠ none := by
    intro s op n hn hp
    rcases Server.apply_nodes_some hn with h1 | ⟨_, ho, _⟩
    · exact h n h1 hp
    · simp [ho]
  cases step_trans hs with
  | served i t s op _ _ _ => exact happly s op
  | late k s op _ => exact happly s op
  | ended s _ => exact fun n hn => h n (Server.expire_nodes hn).1
  | edited e v he =>
    intro n hn hp
    rcases Server.edit_nodes_some he hn with h1 | ⟨rfl, _⟩
    · exact h n h1 hp
    · exact absurd hp (hl (q, n.data) rfl rfl)
  | _ => exact h

theorem reach_ephemeral {q : Str} {P : Str → Prop} {G : World ι → Label ι → Prop}
    (hG : ∀ w l, G w l → LeavesAlone q P l) (hroot : q = rootPath → ¬ P [])
    (h : (system cfg).ReachBy G w) : Ephemeral q P w := by
  apply System.ReachBy.invariant (P := Ephemeral q P) _ _ h
  · rintro w ⟨now, rfl⟩ n hn hp
    simp only [start, Server.start] at hn
    split at hn
    · rename_i hq
      cases hn
      exact absurd hp (hroot hq)
    · cases hn
  · intro s l s' hp hg hs
    exact ephemeral_step hp (hG s l hg) hs

end World

end ZookZhubei
