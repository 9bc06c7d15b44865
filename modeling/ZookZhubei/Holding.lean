-- The places of the main thread at which a process counts on its master
-- node, and what one action of the process does to them.
import ZookZhubei.Actions

namespace ZookZhubei

/-! ## The places of the main thread -/

/-- Inside the loop of `work`, with no `delete_node` issued yet. -/
def Pc.working : Pc → Bool
  | .work _ | .call (.exist _) _ | .check _ _ | .idle _ | .call (.delete _ _) .entry
  | .call (.delete _ _) .checked => true
  | _ => false

/-- The data that `run` compares with `zk_1`. -/
def dataRead (c : Config) (r : Reply) : Option Str :=
  match get_zk_data c.master_path 512 r with
  | .ok (zk_data, _) => some zk_data
  | .error _ => none

theorem dataRead_zk_1_iff {c : Config} {r : Reply} :
    dataRead c r = some zk_1 ↔ r.rc = ZOK ∧ r.data = some zk_1 := by
  unfold dataRead
  rw [get_zk_data_512]
  by_cases hr : r.rc = ZOK
  · cases hd : r.data with
    | none => simp [hr]
    | some d => simp [hr, take_512_eq_zk_1]
  · simp [hr]

/-- The answer that `run` is about to compare with `zk_1`. -/
def Inst.readBack (x : Inst) : Option Reply :=
  match x.pc with
  | .call (.read _) (.returned r) => some r
  | _ => none

/-- The process works, is on its way into `work`, or has a delete on its way
to the server. In all of these the master node has to be its own. A read is
one of them when `own` is true of the node that it found. -/
def Pc.holds (own : Znode → Bool) : Pc → Bool
  | .call (.delete _ _) .queued | .call (.delete _ _) .sent => true
  | .call .race (.replied r) | .call .race (.returned r) => r.rc == ZOK
  | .call (.read _) (.replied r) | .call (.read _) (.returned r) => r.seen.any own
  | pc => pc.working

/-- The delete was lost on the way: all that is left is to throw. -/
def Pc.doomed : Pc → Bool
  | .threw _ => true
  | .call (.delete _ _) (.returned r) => r.rc != ZOK
  | _ => false

theorem Pc.holds_of_working {own : Znode → Bool} {pc : Pc} (h : pc.working = true) :
    pc.holds own = true := by
  unfold Pc.working at h
  split at h <;> first
    | rfl
    | cases h

theorem Pc.not_holds_of_doomed {own : Znode → Bool} {pc : Pc} (h : pc.doomed = true) :
    pc.holds own = false := by
  unfold Pc.doomed at h
  split at h <;> first
    | rfl
    | cases h

theorem Pc.holds_mono {own own' : Znode → Bool} (hown : ∀ n, own n = true → own' n = true) {pc : Pc}
    (h : pc.holds own = true) : pc.holds own' = true := by
  have hany : ∀ o : Option Znode, o.any own = true → o.any own' = true := by
    intro o ho
    cases o with
    | none => cases ho
    | some n => exact hown n ho
  unfold Pc.holds at h ⊢
  split at h <;> first
    | exact h
    | exact hany _ h

/-- A call that ends in the client leads nowhere near `work`. -/
theorem Pc.err_holds {own : Znode → Bool} {k : Call} {rc : Int} (hrc : rc ≠ ZOK)
    (h : (Pc.call k (.returned (.err rc))).holds own = true) : ∃ via, k = .exist via := by
  cases k with
  | race => simp [Pc.holds, hrc] at h
  | read b => cases h
  | exist via => exact ⟨via, rfl⟩
  | delete via zhu => cases h

theorem Pc.abort_holds {own : Znode → Bool} {pc : Pc} {rc : Int} (hrc : rc ≠ ZOK)
    (h : (pc.abort rc).holds own = true) : pc.holds own = true := by
  cases pc with
  | call k ph =>
    cases ph with
    | entry | checked => exact h
    | returned r => exact h
    | queued | sent | replied r =>
      obtain ⟨via, rfl⟩ := Pc.err_holds hrc h
      rfl
  | _ => exact h

theorem Pc.abort_doomed {pc : Pc} (rc : Int) (h : pc.doomed = true) :
    (pc.abort rc).doomed = true := by
  unfold Pc.doomed at h
  split at h
  · rfl
  · exact h
  · cases h

theorem lossCodes_ne_ok {rc : Int} (h : rc ∈ lossCodes) : rc ≠ ZOK := by
  rintro rfl
  revert h
  decide

/-! ## One action of a process -/

namespace Inst

variable {c : Config} {now : Int} {x x' : Inst} {a : Act} {t : Thread} {own : Znode → Bool}

/-- There are two ways into `work`: a race that was won, and a read that gave
`zk_1`. -/
theorem next_holds {pc : Pc}
    (hread : ∀ b r, x.pc = .call (.read b) (.returned r) → dataRead c r = some zk_1 →
      r.seen.any own = true)
    (h : x.next c now = some pc) (hp : pc.holds own = true) : x.pc.holds own = true := by
  cases next_flow h with
  | checked k hpc _ | queued k hpc =>
    rw [hpc]
    cases k <;> first
      | rfl
      | cases hp
  | refused k rc hpc hrc _ =>
    obtain ⟨via, rfl⟩ := Pc.err_holds hrc hp
    rw [hpc]
    rfl
  | won r hpc hr =>
    rw [hpc]
    simpa [Pc.holds] using hr
  | resumed b r hpc hr hd =>
    rw [hpc]
    exact hread b r hpc (dataRead_zk_1_iff.mpr ⟨hr, hd⟩)
  | looks via hpc _ _ => rw [hpc]; rfl
  | zhu via r hpc _ => rw [hpc]; rfl
  | noZhu via r hpc _ => rw [hpc]; rfl
  | yields via zhu hpc _ => rw [hpc]; rfl
  | stays via zhu hpc _ => rw [hpc]; rfl
  | slept via hpc => rw [hpc]; rfl
  | _ => cases hp

/-- No action of a process gives it the master node: it held before. -/
theorem step_holds
    (hread : ∀ b r, a = .main → x.pc = .call (.read b) (.returned r) → dataRead c r = some zk_1 →
      r.seen.any own = true)
    (h : x.step c now a = some x') (hp : x'.pc.holds own = true) :
    x.pc.holds own = true ∧ x'.h.client_id = x.h.client_id := by
  cases step_moves h with
  | ran pc hn hx =>
    subst hx
    exact ⟨next_holds (fun b r => hread b r rfl) hn hp, rfl⟩
  | kept _ _ hpc hc _ => exact ⟨hpc ▸ hp, hc⟩
  | sent k hk hx =>
    subst hx
    refine ⟨?_, rfl⟩
    rw [hk]
    cases k <;> exact hp
  | received k r hk hx =>
    subst hx
    refine ⟨?_, rfl⟩
    rw [hk]
    cases k <;> exact hp
  | lost rc hrc hpc hc _ => exact ⟨Pc.abort_holds (lossCodes_ne_ok hrc) (hpc ▸ hp), hc⟩
  | recreated init _ _ _ hpc =>
    rcases hpc with he | ⟨e, he⟩ <;> rw [he] at hp <;> cases hp
  | restarted hx =>
    subst hx
    cases hp

theorem next_doomed {pc : Pc} (h : x.next c now = some pc) (hp : x.pc.doomed = true) :
    pc.doomed = true := by
  cases next_flow h with
  | undeleted via zhu r _ _ => rfl
  | deleted via zhu r hpc hr =>
    rw [hpc] at hp
    simp [Pc.doomed, hr] at hp
  | refused k rc hpc _ _ | checked k hpc _ | queued k hpc =>
    rw [hpc] at hp
    cases k <;> cases hp
  | _ => simp_all [Pc.doomed]

/-- A process whose delete was lost stays doomed until it has no session. -/
theorem step_doomed (h : x.step c now a = some x') (hp : x.pc.doomed = true) :
    x'.pc.doomed = true ∨ x'.h.client_id = none := by
  cases step_moves h with
  | ran pc hn hx =>
    subst hx
    exact Or.inl (next_doomed hn hp)
  | kept _ _ hpc _ _ => exact Or.inl (hpc ▸ hp)
  | sent k hk _ =>
    rw [hk] at hp
    cases k <;> cases hp
  | received k r hk _ =>
    rw [hk] at hp
    cases k <;> cases hp
  | lost rc _ hpc _ _ => exact Or.inl (hpc ▸ Pc.abort_doomed rc hp)
  | recreated init _ hc _ _ => exact Or.inr hc
  | restarted hx => exact Or.inr (by rw [hx]; rfl)

/-- A delete on the wire is the one that the main thread waits for. -/
theorem op_delete {q : Str} (hp : x.phase t = some .sent) (h : x.op c t = some (.delete q)) :
    ∃ via zhu, x.pc = .call (.delete via zhu) .sent ∧ q = c.master_path := by
  cases t with
  | main =>
    obtain ⟨k, hk⟩ := phase_main hp
    simp only [Inst.op, hk, Option.some.injEq] at h
    cases k with
    | delete via zhu =>
      cases h
      exact ⟨via, zhu, hk, rfl⟩
    | race => cases h
    | read b => cases h
    | exist via => cases h
  | completion =>
    simp only [Inst.op] at h
    split at h <;> cases h

/-- A delete that an action leaves on the wire is the one that the main thread
was waiting for. -/
theorem dropped_delete {s : Session} {q : Str}
    (h : (s, Op.delete q) ∈ if a.drops then x.orphans c else []) :
    a.drops = true ∧ x.h.client_id = some s ∧ ∃ via zhu, x.pc = .call (.delete via zhu) .sent := by
  split at h
  · rename_i ha
    obtain ⟨hc, t, hp, ho⟩ := orphans_mem h
    obtain ⟨via, zhu, hpc, _⟩ := op_delete hp ho
    exact ⟨ha, hc, via, zhu, hpc⟩
  · cases h

/-- Giving up a delete on the wire dooms the process, or ends its session. -/
theorem drop_doomed {via : Via} {zhu : Reply} (h : x.step c now a = some x') (ha : a.drops = true)
    (hpc : x.pc = .call (.delete via zhu) .sent) :
    x'.pc.doomed = true ∨ x'.h.client_id = none := by
  cases a with
  | loss rc =>
    obtain ⟨hrc, _, rfl⟩ := loss_eq h
    left
    simp only [hpc, Pc.abort, Phase.abort, Pc.doomed, Reply.err_rc]
    simpa using lossCodes_ne_ok hrc
  | recreate init =>
    rw [(recreate_eq h).1] at hpc
    cases hpc
  | restart =>
    cases h
    exact Or.inr rfl
  | _ => cases ha

end Inst

end ZookZhubei
