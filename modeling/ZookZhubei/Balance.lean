-- What the probabilities of `update_addrs` are for: clients that are spread evenly over
-- the servers of the old list are spread evenly over those of the new one.
import Mathlib.Tactic.Positivity
import ZookZhubei.Averages
import ZookZhubei.Servers

namespace ZookZhubei

open Averages

open scoped List

/-! ## Where a client goes -/

/-- The server of a connected client after a new list, before anything fails. -/
def Pool.destination (zh : Pool) (resolved : List Addr) (move take : ℚ) : Addr :=
  let zh := update_addrs zh resolved move
  if zh.fd then zh.addr_cur else (zoo_cycle_next_server zh take).addr_cur

/-- The part of the clients that a server has after the new list, when each server of the
old one had the same. The draws of `addrvec_shuffle` are all equally likely, and those of
`drand48` are the multiples of `1 / n`. -/
def Pool.share (zh : Pool) (resolved : List Addr) (n : Nat) (x : Addr) : ℚ :=
  mean zh.addrs.data fun cur =>
    mean (allDraws (resolved.length - 1)) fun random =>
      mean (grid n) fun move => chance (grid n) fun take =>
        (Pool.destination { zh with addr_cur := cur } (addrvec_shuffle resolved random) move take).host
          = x.host

/-- The servers of the new list that were on the old one. -/
def Pool.old (zh : Pool) (resolved : List Addr) : List Addr :=
  resolved.filter fun addr => addrvec_contains zh.addrs.data addr

/-- Those that were not. -/
def Pool.new (zh : Pool) (resolved : List Addr) : List Addr :=
  resolved.filter fun addr => !addrvec_contains zh.addrs.data addr

theorem old_append_new (zh : Pool) (resolved : List Addr) :
    zh.old resolved ++ zh.new resolved ~ resolved := List.filter_append_perm _ _

theorem length_old_add_new (zh : Pool) (resolved : List Addr) :
    (zh.old resolved).length + (zh.new resolved).length = resolved.length := by
  rw [← List.length_append]
  exact (old_append_new zh resolved).length_eq

theorem old_or_new (zh : Pool) {resolved : List Addr} (h : resolved ≠ []) :
    zh.old resolved ≠ [] ∨ zh.new resolved ≠ [] := by
  by_contra hno
  simp only [not_or, not_not] at hno
  have hp := old_append_new zh resolved
  rw [hno.1, hno.2] at hp
  exact h (List.nil_perm.mp hp)

/-- The first of a list. -/
def firstOf (l : List Addr) : Addr := l.head?.getD .zero

theorem addr_cur_rotate_of {data : List Addr} (h : data ≠ []) :
    (addrvec_next (.of data)).2 = firstOf data := by
  obtain ⟨a, l, rfl⟩ := List.exists_cons_of_ne_nil h
  rfl

/-- The first server after a list that makes the client move. -/
theorem zoo_cycle_of_fresh {zh : Pool} {old new : List Addr} (hr : zh.reconfig = true)
    (ho : zh.addrs_old = .of old) (hn : zh.addrs_new = .of new) (hsome : old ≠ [] ∨ new ≠ [])
    (take : ℚ) :
    (zoo_cycle_next_server zh take).addr_cur =
      if new ≠ [] ∧ (take ≤ zh.pNew ∨ old = []) then firstOf new else firstOf old := by
  have hhas : ∀ l : List Addr, addrvec_hasnext (.of l) = !l.isEmpty := by
    intro l
    cases l <;> rfl
  unfold zoo_cycle_next_server get_next_server_in_reconfig
  simp only [hr, if_true, ho, hn, hhas]
  by_cases hnew : new = []
  · have hold := hsome.resolve_right (not_not.mpr hnew)
    simp [hnew, hold, addr_cur_rotate_of hold]
  · by_cases htake : take ≤ zh.pNew
    · simp [hnew, htake, addr_cur_rotate_of hnew]
    · by_cases hold : old = []
      · simp [hnew, hold, addr_cur_rotate_of hnew]
      · simp [hnew, htake, hold, addr_cur_rotate_of hold]

/-- The first server with the chance `p` for a new one. -/
def target (p : ℚ) (old new : List Addr) (take : ℚ) : Addr :=
  if new ≠ [] ∧ (take ≤ p ∨ old = []) then firstOf new else firstOf old

/-- `pOld` for a list that did not grow. -/
def oldChance (count num_old total : Nat) : ℚ :=
  (num_old * (count - total) : Nat) / (total * (count - num_old) : Nat)

/-- A list with the same hosts leaves the client where it is. -/
theorem destination_of_eq (zh : Pool) {resolved : List Addr} (hfd : zh.fd = true)
    (h : addrvec_eq zh.addrs.data resolved = true) (move take : ℚ) :
    zh.destination resolved move take = zh.addr_cur := by
  unfold Pool.destination
  rw [update_addrs_of_eq h]
  simp [hfd]

/-- Any other list makes it move or not, as `weigh` says. -/
theorem destination_of_weigh {zh w : Pool} {resolved : List Addr} {move : ℚ} (hfd : zh.fd = true)
    (hne : addrvec_eq zh.addrs.data resolved = false) (hsome : resolved ≠ [])
    (hw : (zh.divide resolved).weigh (addrvec_contains resolved zh.addr_cur) move = w) (take : ℚ) :
    zh.destination resolved move take =
      if w.reconfig then target w.pNew (zh.old resolved) (zh.new resolved) take
      else zh.addr_cur := by
  obtain ⟨reconfig, pOld, pNew, heq, -⟩ :=
    weigh_eq (zh.divide resolved) (addrvec_contains resolved zh.addr_cur) move
  rw [← hw]
  unfold Pool.destination update_addrs
  simp only [hne, Bool.false_eq_true, if_false, heq]
  simp only [Pool.replace, Pool.divide, hfd, Bool.true_and]
  cases reconfig with
  | false => rfl
  | true => exact zoo_cycle_of_fresh rfl rfl rfl (old_or_new zh hsome) take

/-- The same by the branches of `update_addrs`. -/
theorem destination_of_ne (zh : Pool) {resolved : List Addr} (hfd : zh.fd = true)
    (hne : addrvec_eq zh.addrs.data resolved = false) (hsome : resolved ≠ []) (move take : ℚ) :
    zh.destination resolved move take =
      if zh.addrs.data.length < resolved.length then
        if addrvec_contains resolved zh.addr_cur then
          if move ≤ moveChance zh.addrs.data.length resolved.length then
            target 1 (zh.old resolved) (zh.new resolved) take
          else zh.addr_cur
        else target 1 (zh.old resolved) (zh.new resolved) take
      else if addrvec_contains resolved zh.addr_cur then zh.addr_cur
      else target (1 - oldChance zh.addrs.data.length (zh.old resolved).length resolved.length)
        (zh.old resolved) (zh.new resolved) take := by
  rw [destination_of_weigh hfd hne hsome rfl]
  have ho : (zh.divide resolved).addrs_old.data = zh.old resolved := rfl
  have hn : (zh.divide resolved).addrs_new.data = zh.new resolved := rfl
  have ha : (zh.divide resolved).addrs = zh.addrs := rfl
  have hr : (zh.divide resolved).reconfig = true := rfl
  unfold Pool.weigh
  simp only [ho, hn, ha, length_old_add_new]
  by_cases hgrew : zh.addrs.data.length < resolved.length
  · by_cases hfound : addrvec_contains resolved zh.addr_cur = true
    · by_cases hmove : move ≤ moveChance zh.addrs.data.length resolved.length
      · simp [hgrew, hfound, hmove, hr]
      · simp [hgrew, hfound, hmove]
    · simp [hgrew, hfound, hr]
  · by_cases hfound : addrvec_contains resolved zh.addr_cur = true
    · simp [hgrew, hfound]
    · simp [hgrew, hfound, hr, oldChance]

/-! ## Counting -/

/-- Two lists have as many hosts of each other. -/
theorem length_filter_contains {a b : List Addr} (ha : (a.map Addr.host).Nodup)
    (hb : (b.map Addr.host).Nodup) (hfa : ∀ x ∈ a, x.family ≠ .unspec)
    (hfb : ∀ x ∈ b, x.family ≠ .unspec) :
    (a.filter fun x => addrvec_contains b x).length = (b.filter fun x => addrvec_contains a x).length := by
  have hnodup : ∀ (l : List Addr) (q : Addr → Bool), (l.map Addr.host).Nodup →
      ((l.filter q).map Addr.host).Nodup :=
    fun l q h => h.sublist (List.filter_sublist.map _)
  have hperm : (a.filter fun x => addrvec_contains b x).map Addr.host ~
      (b.filter fun x => addrvec_contains a x).map Addr.host := by
    refine (List.perm_ext_iff_of_nodup (hnodup _ _ ha) (hnodup _ _ hb)).mpr fun h => ?_
    simp only [List.mem_map, List.mem_filter, addrvec_contains_iff]
    constructor
    · rintro ⟨x, ⟨hx, ⟨y, hy, hxy⟩, hf⟩, rfl⟩
      exact ⟨y, ⟨hy, ⟨x, hx, hxy.symm⟩, hfb y hy⟩, hxy⟩
    · rintro ⟨x, ⟨hx, ⟨y, hy, hxy⟩, hf⟩, rfl⟩
      exact ⟨y, ⟨hy, ⟨x, hx, hxy.symm⟩, hfa y hy⟩, hxy⟩
  simpa using hperm.length_eq

/-- A host that is on a list once is met with the chance of one place. -/
theorem chance_host {a : List Addr} (ha : (a.map Addr.host).Nodup) {x : Addr}
    (hx : x.host ∈ a.map Addr.host) : chance a (fun cur => cur.host = x.host) = 1 / a.length := by
  rw [chance_eq]
  have hone := length_filter_eq_one ha hx
  rw [List.filter_map, List.length_map] at hone
  have hcast : ((a.filter fun cur => decide (cur.host = x.host)).length : ℚ) = 1 := by
    exact_mod_cast hone
  rw [hcast]

/-- The first of those that `q` picks out of a shuffled list. -/
theorem mean_first {resolved : List Addr} (hn : (resolved.map Addr.host).Nodup) {q : Addr → Bool}
    {x : Addr} (hx : x ∈ resolved) (hq : resolved.filter q ≠ []) :
    chance (allDraws (resolved.length - 1))
        (fun random => (firstOf ((addrvec_shuffle resolved random).filter q)).host = x.host) =
      if q x then 1 / ((resolved.filter q).length : ℚ) else 0 := by
  have hnd : resolved.Nodup := List.Nodup.of_map _ hn
  unfold chance
  rw [← mean_map (allDraws (resolved.length - 1)) (addrvec_shuffle resolved)
    (fun o => if (firstOf (o.filter q)).host = x.host then 1 else 0),
    mean_perm (addrvec_shuffle_perm resolved)]
  -- Among the servers of a list a host is one server.
  have hhead : ∀ o ∈ resolved.permutations, ∃ y ∈ resolved, (o.filter q).head? = some y ∧ q y = true ∧
      firstOf (o.filter q) = y ∧ ((firstOf (o.filter q)).host = x.host ↔ y = x) := by
    intro o ho
    have hp := List.mem_permutations.mp ho
    have hne : o.filter q ≠ [] := by
      intro he
      exact hq (List.perm_nil.mp (he ▸ (hp.filter q).symm))
    obtain ⟨y, rest, hy⟩ := List.exists_cons_of_ne_nil hne
    have hmem : y ∈ o.filter q := by simp [hy]
    obtain ⟨hyo, hqy⟩ := List.mem_filter.mp hmem
    have hyr := hp.subset hyo
    have hfirst : firstOf (o.filter q) = y := by rw [hy]; rfl
    refine ⟨y, hyr, by simp [hy], hqy, hfirst, ?_⟩
    rw [hfirst]
    exact ⟨fun hh => List.inj_on_of_nodup_map hn hyr hx hh, fun hh => hh ▸ rfl⟩
  split
  · rename_i hqx
    rw [← chance_first hnd hx hqx]
    refine mean_congr fun o ho => if_congr ?_ rfl rfl
    obtain ⟨y, -, hy, -, -, hiff⟩ := hhead o ho
    simp only [hiff, hy, Option.some.injEq]
  · rename_i hqx
    have hzero : ∀ o ∈ resolved.permutations,
        (if (firstOf (o.filter q)).host = x.host then (1 : ℚ) else 0) = 0 := by
      intro o ho
      obtain ⟨y, -, -, hqy, -, hiff⟩ := hhead o ho
      refine if_neg fun hh => hqx ?_
      rw [← hiff.mp hh]
      exact hqy
    rw [mean_congr hzero]
    exact mean_const (List.ne_nil_of_mem (List.mem_permutations.mpr (List.Perm.refl _))) 0

/-! ## The share of a server -/

section

variable {zh : Pool} {resolved : List Addr} {n : Nat} {x : Addr}

/-- The chance of a server to be the first of the old ones in a shuffled list. -/
def Pool.firstOld (zh : Pool) (resolved : List Addr) (x : Addr) : ℚ :=
  if addrvec_contains zh.addrs.data x then 1 / ((zh.old resolved).length : ℚ) else 0

/-- The same among the new ones. -/
def Pool.firstNew (zh : Pool) (resolved : List Addr) (x : Addr) : ℚ :=
  if !addrvec_contains zh.addrs.data x then 1 / ((zh.new resolved).length : ℚ) else 0

/-- The chance of a server with a client that moves, `p` being `pNew`. -/
def Pool.hit (zh : Pool) (resolved : List Addr) (n : Nat) (x : Addr) (p : ℚ) : ℚ :=
  if zh.new resolved = [] then zh.firstOld resolved x
  else if zh.old resolved = [] then zh.firstNew resolved x
  else chance (grid n) (· ≤ p) * zh.firstNew resolved x +
    (1 - chance (grid n) (· ≤ p)) * zh.firstOld resolved x

theorem grid_ne_nil (hn : 0 < n) : grid n ≠ [] := by
  unfold grid
  simp only [ne_eq, List.map_eq_nil_iff, List.range_eq_nil]
  omega

theorem shuffle_perm_of_mem {random : Nat → Nat} (h : random ∈ allDraws (resolved.length - 1)) :
    addrvec_shuffle resolved random ~ resolved :=
  List.mem_permutations.mp
    ((addrvec_shuffle_perm resolved).subset (List.mem_map_of_mem h))

theorem allDraws_ne_nil (i : Nat) : allDraws i ≠ [] := by
  induction i with
  | zero => simp [allDraws]
  | succ i ih =>
    rw [allDraws, List.range_succ_eq_map]
    simp [ih]

theorem firstOld_eq (hnd : (resolved.map Addr.host).Nodup) (hx : x ∈ resolved)
    (h : zh.old resolved ≠ []) :
    zh.firstOld resolved x = chance (allDraws (resolved.length - 1))
      (fun random => (firstOf (zh.old (addrvec_shuffle resolved random))).host = x.host) :=
  (mean_first hnd hx h).symm

theorem firstNew_eq (hnd : (resolved.map Addr.host).Nodup) (hx : x ∈ resolved)
    (h : zh.new resolved ≠ []) :
    zh.firstNew resolved x = chance (allDraws (resolved.length - 1))
      (fun random => (firstOf (zh.new (addrvec_shuffle resolved random))).host = x.host) :=
  (mean_first hnd hx h).symm

/-- The chance of `x` over all orders of the list, with a draw for each. -/
theorem mean_target (hnd : (resolved.map Addr.host).Nodup) (hx : x ∈ resolved) (hn : 0 < n) (p : ℚ) :
    mean (allDraws (resolved.length - 1)) (fun random => chance (grid n) fun take =>
        (target p (zh.old (addrvec_shuffle resolved random)) (zh.new (addrvec_shuffle resolved random))
          take).host = x.host) = zh.hit resolved n x p := by
  have hg := grid_ne_nil hn
  have hperm : ∀ random ∈ allDraws (resolved.length - 1),
      zh.old (addrvec_shuffle resolved random) ~ zh.old resolved ∧
        zh.new (addrvec_shuffle resolved random) ~ zh.new resolved :=
    fun random hr => ⟨(shuffle_perm_of_mem hr).filter _, (shuffle_perm_of_mem hr).filter _⟩
  have hnil : ∀ {l l' : List Addr}, l ~ l' → (l = [] ↔ l' = []) := by
    intro l l' h
    rw [← List.length_eq_zero_iff, ← List.length_eq_zero_iff, h.length_eq]
  unfold Pool.hit
  by_cases hnew : zh.new resolved = []
  · have hold := (old_or_new zh (List.ne_nil_of_mem hx)).resolve_right (not_not.mpr hnew)
    rw [if_pos hnew, firstOld_eq hnd hx hold]
    refine mean_congr fun random hr => ?_
    have hn' := (hnil (hperm random hr).2).mpr hnew
    simp only [target, hn', ne_eq, not_true_eq_false, false_and, if_false]
    exact chance_const hg _
  · by_cases hold : zh.old resolved = []
    · rw [if_neg hnew, if_pos hold, firstNew_eq hnd hx hnew]
      refine mean_congr fun random hr => ?_
      have ho' := (hnil (hperm random hr).1).mpr hold
      have hn' := mt (hnil (hperm random hr).2).mp hnew
      simp only [target, ho', hn', ne_eq, not_false_eq_true, or_true, and_self, if_true]
      exact chance_const hg _
    · rw [if_neg hnew, if_neg hold, firstOld_eq hnd hx hold, firstNew_eq hnd hx hnew]
      have hval : ∀ random ∈ allDraws (resolved.length - 1), (chance (grid n) fun take =>
          (target p (zh.old (addrvec_shuffle resolved random))
            (zh.new (addrvec_shuffle resolved random)) take).host = x.host) =
          chance (grid n) (· ≤ p) *
              (if (firstOf (zh.new (addrvec_shuffle resolved random))).host = x.host then 1 else 0) +
            (1 - chance (grid n) (· ≤ p)) *
              (if (firstOf (zh.old (addrvec_shuffle resolved random))).host = x.host then 1 else 0) := by
        intro random hr
        have ho' := mt (hnil (hperm random hr).1).mp hold
        have hn' := mt (hnil (hperm random hr).2).mp hnew
        rw [← mean_ite hg]
        refine mean_congr fun take _ => ?_
        simp only [target, ho', hn', ne_eq, not_false_eq_true, or_false, true_and]
        by_cases ht : take ≤ p <;> simp [ht]
      rw [mean_congr hval, mean_add, mean_mul, mean_mul]
      rfl

theorem addrvec_contains_perm {l l' : List Addr} (h : l ~ l') (x : Addr) :
    addrvec_contains l x = addrvec_contains l' x := by
  unfold addrvec_contains
  exact h.any_eq

theorem addrvec_eq_perm (a : List Addr) {l l' : List Addr} (h : l ~ l') :
    addrvec_eq a l = addrvec_eq a l' := by
  unfold addrvec_eq
  rw [h.length_eq]
  simp only [addrvec_contains_perm h]

/-- The chance of `x` with a client on `cur`, by the branches of `update_addrs`. -/
def Pool.clientShare (zh : Pool) (resolved : List Addr) (n : Nat) (x cur : Addr) : ℚ :=
  let here : ℚ := if cur.host = x.host then 1 else 0
  let moves := chance (grid n) (· ≤ moveChance zh.addrs.data.length resolved.length)
  if addrvec_eq zh.addrs.data resolved then here
  else if zh.addrs.data.length < resolved.length then
    if addrvec_contains resolved cur then moves * zh.hit resolved n x 1 + (1 - moves) * here
    else zh.hit resolved n x 1
  else if addrvec_contains resolved cur then here
  else zh.hit resolved n x
    (1 - oldChance zh.addrs.data.length (zh.old resolved).length resolved.length)

/-- What one order of the list does with a client on `cur`. -/
theorem destination_of_shuffle (hfd : zh.fd = true) (hsome : resolved ≠ [])
    (hne : addrvec_eq zh.addrs.data resolved = false) (cur : Addr) {o : List Addr} (hp : o ~ resolved)
    (move take : ℚ) :
    Pool.destination { zh with addr_cur := cur } o move take =
      if zh.addrs.data.length < resolved.length then
        if addrvec_contains resolved cur then
          if move ≤ moveChance zh.addrs.data.length resolved.length then
            target 1 (zh.old o) (zh.new o) take
          else cur
        else target 1 (zh.old o) (zh.new o) take
      else if addrvec_contains resolved cur then cur
      else target (1 - oldChance zh.addrs.data.length (zh.old resolved).length resolved.length)
        (zh.old o) (zh.new o) take := by
  have hne' := (addrvec_eq_perm zh.addrs.data hp).trans hne
  have hsome' : o ≠ [] := by
    intro he
    exact hsome (List.nil_perm.mp (he ▸ hp))
  have hold : (zh.old o).length = (zh.old resolved).length := (hp.filter _).length_eq
  have h := destination_of_ne { zh with addr_cur := cur } hfd hne' hsome' move take
  rw [addrvec_contains_perm hp] at h
  simp only [hp.length_eq] at h
  rw [h, ← hold]
  rfl

/-- The same as a chance, for a client that stays in all orders. -/
theorem mean_stay (hn : 0 < n) {goes : (Nat → Nat) → ℚ → ℚ → Addr} {cur : Addr}
    (h : ∀ random ∈ allDraws (resolved.length - 1), ∀ move take, goes random move take = cur) :
    mean (allDraws (resolved.length - 1)) (fun random => mean (grid n) fun move =>
      chance (grid n) fun take => (goes random move take).host = x.host) =
        if cur.host = x.host then 1 else 0 := by
  have hg := grid_ne_nil hn
  have hval : ∀ random ∈ allDraws (resolved.length - 1), (mean (grid n) fun move =>
      chance (grid n) fun take => (goes random move take).host = x.host) =
        if cur.host = x.host then 1 else 0 := by
    intro random hr
    simp only [h random hr]
    rw [chance_const hg, mean_const hg]
  rw [mean_congr hval, mean_const (allDraws_ne_nil _)]

theorem mean_client (hfd : zh.fd = true) (hnd : (resolved.map Addr.host).Nodup) (hx : x ∈ resolved)
    (hn : 0 < n) (cur : Addr) :
    mean (allDraws (resolved.length - 1)) (fun random => mean (grid n) fun move =>
        chance (grid n) fun take =>
          (Pool.destination { zh with addr_cur := cur } (addrvec_shuffle resolved random) move
            take).host = x.host) = zh.clientShare resolved n x cur := by
  have hg := grid_ne_nil hn
  unfold Pool.clientShare
  cases heq : addrvec_eq zh.addrs.data resolved with
  | true =>
    simp only [if_true]
    refine mean_stay hn fun random hr move take => ?_
    exact destination_of_eq { zh with addr_cur := cur } hfd
      ((addrvec_eq_perm zh.addrs.data (shuffle_perm_of_mem hr)).trans heq) move take
  | false =>
    have hto : ∀ random ∈ allDraws (resolved.length - 1), ∀ move take, _ :=
      fun random hr move take => destination_of_shuffle hfd (List.ne_nil_of_mem hx) heq cur
        (shuffle_perm_of_mem hr) move take
    simp only [Bool.false_eq_true, if_false]
    by_cases hgrew : zh.addrs.data.length < resolved.length
    · by_cases hfound : addrvec_contains resolved cur = true
      · simp only [hgrew, hfound, if_true] at hto ⊢
        rw [← mean_target hnd hx hn 1, ← mean_mul, ← mean_const (allDraws_ne_nil (resolved.length - 1))
          ((1 - _) * _), ← mean_add]
        refine mean_congr fun random hr => ?_
        rw [← mean_ite hg]
        refine mean_congr fun move _ => ?_
        split
        · rename_i hmove
          simp only [hto random hr, hmove, if_true]
        · rename_i hmove
          simp only [hto random hr, hmove, if_false]
          exact chance_const hg _
      · simp only [hgrew, hfound, if_true, Bool.false_eq_true, if_false] at hto ⊢
        rw [← mean_target hnd hx hn 1]
        refine mean_congr fun random hr => ?_
        simp only [hto random hr]
        exact mean_const hg _
    · by_cases hfound : addrvec_contains resolved cur = true
      · simp only [hgrew, hfound, if_true, if_false] at hto ⊢
        exact mean_stay hn hto
      · simp only [hgrew, hfound, Bool.false_eq_true, if_false] at hto ⊢
        rw [← mean_target hnd hx hn]
        refine mean_congr fun random hr => ?_
        simp only [hto random hr]
        exact mean_const hg _

/-! ## Over all clients -/

/-- What the lists are: servers of known families, no host twice. -/
structure Proper (l : List Addr) : Prop where
  some : l ≠ []
  hosts : (l.map Addr.host).Nodup
  known : ∀ addr ∈ l, addr.family ≠ .unspec

/-- How many clients are on a server that stays on the list. -/
theorem chance_found (ha : Proper zh.addrs.data) (hr : Proper resolved) :
    chance zh.addrs.data (fun cur => addrvec_contains resolved cur = true) =
      (zh.old resolved).length / zh.addrs.data.length := by
  rw [chance_eq]
  simp only [Bool.decide_eq_true]
  rw [length_filter_contains ha.hosts hr.hosts ha.known hr.known]
  rfl

theorem length_old_le (ha : Proper zh.addrs.data) (hr : Proper resolved) :
    (zh.old resolved).length ≤ zh.addrs.data.length := by
  unfold Pool.old
  rw [← length_filter_contains ha.hosts hr.hosts ha.known hr.known]
  exact List.length_filter_le _ _

/-- How many clients are on `x` itself. -/
theorem chance_here (ha : Proper zh.addrs.data) (hf : x.family ≠ .unspec) :
    chance zh.addrs.data (fun cur => cur.host = x.host) =
      if addrvec_contains zh.addrs.data x then 1 / (zh.addrs.data.length : ℚ) else 0 := by
  split
  · rename_i hx
    exact chance_host ha.hosts (addrvec_contains_iff.mp hx).1
  · rename_i hx
    have hno : ∀ cur ∈ zh.addrs.data, (if cur.host = x.host then (1 : ℚ) else 0) = 0 := by
      intro cur hcur
      refine if_neg fun hh => hx (addrvec_contains_iff.mpr ⟨?_, hf⟩)
      exact hh ▸ List.mem_map_of_mem hcur
    unfold chance
    rw [mean_congr hno]
    exact mean_const ha.some 0

/-- A client that is on `x` is on a server that stays. -/
theorem found_of_here (hr : Proper resolved) (hx : x ∈ resolved) {cur : Addr}
    (h : cur.host = x.host) : addrvec_contains resolved cur = true := by
  refine addrvec_contains_iff.mpr ⟨h ▸ List.mem_map_of_mem hx, ?_⟩
  have hfam := hr.known x hx
  rwa [← (Prod.mk.inj h).1] at hfam

/-- Clients that stay, go or are driven off. -/
theorem mean_clients (ha : Proper zh.addrs.data) (hr : Proper resolved) (hx : x ∈ resolved)
    (a b c : ℚ) :
    mean zh.addrs.data (fun cur => if addrvec_contains resolved cur then
        a * (if cur.host = x.host then 1 else 0) + b else c) =
      a * (if addrvec_contains zh.addrs.data x then 1 / (zh.addrs.data.length : ℚ) else 0) +
        ((zh.old resolved).length / zh.addrs.data.length * b +
          (1 - (zh.old resolved).length / zh.addrs.data.length) * c) := by
  rw [← chance_here ha (hr.known x hx), ← chance_found ha hr, ← mean_ite ha.some, chance, ← mean_mul,
    ← mean_add]
  refine mean_congr fun cur _ => ?_
  by_cases hfound : addrvec_contains resolved cur = true
  · simp [hfound]
  · have hne : ¬ cur.host = x.host := fun hh => hfound (found_of_here hr hx hh)
    simp [hfound, hne]

theorem oldChance_bounds {s o m : Nat} (ho : o ≤ s) (hm : o + m ≤ s) :
    0 ≤ oldChance s o (o + m) ∧ oldChance s o (o + m) ≤ 1 := by
  unfold oldChance
  refine ⟨by positivity, div_le_one_of_le₀ ?_ (by positivity)⟩
  have hle : o * (s - (o + m)) ≤ (o + m) * (s - o) :=
    Nat.mul_le_mul (by omega) (by omega)
  exact_mod_cast hle

/-- A list that grew. The clients of the servers that stay move with the chance that makes
room on them. -/
theorem share_of_grown {s o m n : Nat} (hs : 0 < s) (ho : o ≤ s) (hgrew : s < o + m) {f : ℚ}
    (hf : |f - moveChance s (o + m)| ≤ 1 / n) :
    |(1 - f) * (1 / (s : ℚ)) - 1 / (o + m : Nat)| ≤ 1 / n ∧
      |(o / s * (f * (1 / m)) + (1 - o / s) * (1 / m) : ℚ) - 1 / (o + m : Nat)| ≤ 1 / n := by
  have hm : 0 < m := by omega
  have hs' : (0 : ℚ) < s := by exact_mod_cast hs
  have hm' : (0 : ℚ) < m := by exact_mod_cast hm
  have ht' : (0 : ℚ) < (o + m : Nat) := by exact_mod_cast (by omega : 0 < o + m)
  have hs1 : (1 : ℚ) ≤ s := by exact_mod_cast hs
  have hm1 : (1 : ℚ) ≤ m := by exact_mod_cast hm
  have hos : (o : ℚ) ≤ s := by exact_mod_cast ho
  unfold moveChance at hf
  constructor
  · have h := close_of_close (a := 1 / (s : ℚ)) (b := 1 / (s : ℚ)) (c := 1 / (o + m : Nat))
      (f := -f) (p := -(1 - s / (o + m : Nat))) (e := 1 / (n : ℚ))
      (by rw [neg_sub_neg, abs_sub_comm]; exact hf) (by positivity) ((div_le_one hs').mpr hs1)
      (by field_simp; ring)
    have heq : 1 / (s : ℚ) + 1 / s * -f = (1 - f) * (1 / s) := by ring
    rw [← heq]
    exact h
  · have h := close_of_close (a := (1 - o / s) * (1 / m)) (b := (o / s : ℚ) * (1 / m))
      (c := 1 / (o + m : Nat)) hf (by positivity)
      (mul_le_one₀ ((div_le_one hs').mpr hos) (by positivity) ((div_le_one hm').mpr hm1))
      (by push_cast; field_simp; ring)
    have heq : (1 - o / s) * (1 / m) + o / s * (1 / m) * f =
        (o / s * (f * (1 / m)) + (1 - o / s) * (1 / m) : ℚ) := by ring
    rw [← heq]
    exact h

/-- A list that did not grow. The clients of the servers that are gone fill up the old ones
and the new ones. -/
theorem share_of_shrunk {s o m n : Nat} (ho : 0 < o) (hm : 0 < m) (hle : o + m ≤ s) {f : ℚ}
    (hf : |f - (1 - oldChance s o (o + m))| ≤ 1 / n) :
    |(1 / s + (1 - o / s) * ((1 - f) * (1 / o)) : ℚ) - 1 / (o + m : Nat)| ≤ 1 / n ∧
      |((1 - o / s) * (f * (1 / m)) : ℚ) - 1 / (o + m : Nat)| ≤ 1 / n := by
  have hs' : (0 : ℚ) < s := by exact_mod_cast (by omega : 0 < s)
  have ho' : (0 : ℚ) < o := by exact_mod_cast ho
  have hm' : (0 : ℚ) < m := by exact_mod_cast hm
  have ho1 : (1 : ℚ) ≤ o := by exact_mod_cast ho
  have hm1 : (1 : ℚ) ≤ m := by exact_mod_cast hm
  have hso : (0 : ℚ) < s - o := by
    have : (o : ℚ) < s := by exact_mod_cast (by omega : o < s)
    linarith
  have hgone : (0 : ℚ) ≤ 1 - o / s ∧ 1 - (o : ℚ) / s ≤ 1 := by
    have h1 : (o : ℚ) / s ≤ 1 := (div_le_one hs').mpr (by linarith)
    have h2 : (0 : ℚ) ≤ (o : ℚ) / s := by positivity
    constructor <;> linarith
  have hold : oldChance s o (o + m) = o * (s - (o + m)) / ((o + m) * (s - o)) := by
    unfold oldChance
    rw [Nat.cast_mul, Nat.cast_mul, Nat.cast_sub hle, Nat.cast_sub (by omega)]
    push_cast
    rfl
  rw [hold] at hf
  constructor
  · have h := close_of_close (a := 1 / s + (1 - o / s) * (1 / o)) (b := (1 - o / s : ℚ) * (1 / o))
      (c := 1 / (o + m : Nat)) (f := -f) (p := -(1 - o * (s - (o + m)) / ((o + m) * (s - o))))
      (e := 1 / (n : ℚ)) (by rw [neg_sub_neg, abs_sub_comm]; exact hf)
      (mul_nonneg hgone.1 (by positivity))
      (mul_le_one₀ hgone.2 (by positivity) ((div_le_one ho').mpr ho1))
      (by push_cast; field_simp; ring)
    have heq : 1 / s + (1 - o / s) * (1 / o) + (1 - o / s) * (1 / o) * -f =
        (1 / s + (1 - o / s) * ((1 - f) * (1 / o)) : ℚ) := by ring
    rw [← heq]
    exact h
  · have h := close_of_close (a := 0) (b := (1 - o / s : ℚ) * (1 / m)) (c := 1 / (o + m : Nat)) hf
      (mul_nonneg hgone.1 (by positivity))
      (mul_le_one₀ hgone.2 (by positivity) ((div_le_one hm').mpr hm1))
      (by push_cast; field_simp; ring)
    have heq : 0 + (1 - o / s) * (1 / m) * f = ((1 - o / s) * (f * (1 / m)) : ℚ) := by ring
    rw [← heq]
    exact h

/-- With a chance of 1 the client goes to a new server, if there is one. -/
theorem hit_one (hn : 0 < n) (h : zh.new resolved ≠ []) :
    zh.hit resolved n x 1 = zh.firstNew resolved x := by
  unfold Pool.hit
  rw [if_neg h, chance_grid_one hn]
  split <;> ring

theorem share_grown (ha : Proper zh.addrs.data) (hr : Proper resolved) (hn : 0 < n)
    (hx : x ∈ resolved) (hgrew : zh.addrs.data.length < resolved.length) :
    |mean zh.addrs.data (fun cur => if addrvec_contains resolved cur then
        chance (grid n) (· ≤ moveChance zh.addrs.data.length resolved.length) * zh.hit resolved n x 1 +
          (1 - chance (grid n) (· ≤ moveChance zh.addrs.data.length resolved.length)) *
            (if cur.host = x.host then 1 else 0)
        else zh.hit resolved n x 1) - 1 / resolved.length| ≤ 1 / n := by
  have hs : 0 < zh.addrs.data.length := List.length_pos_iff.mpr ha.some
  have ho := length_old_le ha hr
  have hsum := length_old_add_new zh resolved
  have hnew : zh.new resolved ≠ [] := by
    intro he
    rw [he, List.length_nil] at hsum
    omega
  rw [hit_one hn hnew, mean_congr fun cur _ => if_congr Iff.rfl (add_comm _ _) rfl,
    mean_clients ha hr hx]
  have hmc : |chance (grid n) (· ≤ moveChance zh.addrs.data.length resolved.length) -
      moveChance zh.addrs.data.length resolved.length| ≤ 1 / n := by
    have hpos : (0 : ℚ) < resolved.length := by exact_mod_cast (by omega : 0 < resolved.length)
    have hle : (zh.addrs.data.length : ℚ) / resolved.length ≤ 1 :=
      (div_le_one hpos).mpr (by exact_mod_cast hgrew.le)
    have h0 : (0 : ℚ) ≤ (zh.addrs.data.length : ℚ) / resolved.length := by positivity
    refine chance_grid hn ?_ ?_ <;> unfold moveChance <;> linarith
  rw [← hsum] at hmc hgrew ⊢
  obtain ⟨hold, hnew'⟩ := share_of_grown hs ho hgrew hmc
  unfold Pool.firstNew
  by_cases hc : addrvec_contains zh.addrs.data x = true
  · simpa [hc] using hold
  · simpa [hc] using hnew'

theorem share_shrunk (ha : Proper zh.addrs.data) (hr : Proper resolved) (hn : 0 < n)
    (hx : x ∈ resolved) (hle : resolved.length ≤ zh.addrs.data.length) :
    |mean zh.addrs.data (fun cur => if addrvec_contains resolved cur then
        (if cur.host = x.host then 1 else 0)
        else zh.hit resolved n x
          (1 - oldChance zh.addrs.data.length (zh.old resolved).length resolved.length)) -
      1 / resolved.length| ≤ 1 / n := by
  have hsum := length_old_add_new zh resolved
  have ho := length_old_le ha hr
  have hform : ∀ cur ∈ zh.addrs.data, (if addrvec_contains resolved cur then
      (if cur.host = x.host then (1 : ℚ) else 0) else zh.hit resolved n x
          (1 - oldChance zh.addrs.data.length (zh.old resolved).length resolved.length)) =
      if addrvec_contains resolved cur then 1 * (if cur.host = x.host then 1 else 0) + 0
      else zh.hit resolved n x
        (1 - oldChance zh.addrs.data.length (zh.old resolved).length resolved.length) := by
    intro cur _
    rw [one_mul, add_zero]
  rw [mean_congr hform, mean_clients ha hr hx, one_mul, mul_zero, zero_add]
  have hinv : (0 : ℚ) ≤ 1 / n := by positivity
  have hs' : (zh.addrs.data.length : ℚ) ≠ 0 := by
    have := ha.some
    simpa using this
  unfold Pool.hit Pool.firstOld Pool.firstNew
  by_cases hnew : zh.new resolved = []
  · -- All of them were known.
    have hc : addrvec_contains zh.addrs.data x = true := by
      by_contra hno
      have hmem : x ∈ zh.new resolved := List.mem_filter.mpr ⟨hx, by simpa using hno⟩
      rw [hnew] at hmem
      exact absurd hmem List.not_mem_nil
    rw [hnew, List.length_nil, Nat.add_zero] at hsum
    have ho0 : (resolved.length : ℚ) ≠ 0 := by
      simpa using hr.some
    have hexact : (1 / (zh.addrs.data.length : ℚ) + (1 - resolved.length / zh.addrs.data.length) *
        (1 / resolved.length)) - 1 / resolved.length = 0 := by
      field_simp
      ring
    rw [if_pos hnew, if_pos hc, if_pos hc, hsum, hexact, abs_zero]
    exact hinv
  · by_cases hold : zh.old resolved = []
    · -- None of them was.
      have hc : ¬ addrvec_contains zh.addrs.data x = true := by
        intro hyes
        have hmem : x ∈ zh.old resolved := List.mem_filter.mpr ⟨hx, hyes⟩
        rw [hold] at hmem
        exact absurd hmem List.not_mem_nil
      rw [hold, List.length_nil, Nat.zero_add] at hsum
      rw [if_neg hnew, if_pos hold, if_neg hc, if_pos (by simpa using hc), hold, hsum]
      simp
    · have hm : 0 < (zh.new resolved).length := List.length_pos_iff.mpr hnew
      have ho' : 0 < (zh.old resolved).length := List.length_pos_iff.mpr hold
      rw [if_neg hnew, if_neg hold]
      rw [← hsum] at hle ⊢
      obtain ⟨h0, h1⟩ := oldChance_bounds ho hle
      have hpc := chance_grid hn (p := 1 - oldChance zh.addrs.data.length (zh.old resolved).length
        ((zh.old resolved).length + (zh.new resolved).length)) (by linarith) (by linarith)
      obtain ⟨h2, h3⟩ := share_of_shrunk ho' hm hle hpc
      by_cases hc : addrvec_contains zh.addrs.data x = true
      · simpa [hc] using h2
      · simpa [hc] using h3

/-- Clients that are spread evenly over the old list are spread evenly over the new one: as
finely as `drand48` draws, each server has the same part of them. -/
theorem the_clients_spread_evenly (hfd : zh.fd = true) (ha : Proper zh.addrs.data)
    (hr : Proper resolved) (hn : 0 < n) (hx : x ∈ resolved) :
    |zh.share resolved n x - 1 / resolved.length| ≤ 1 / n := by
  have hshare : zh.share resolved n x = mean zh.addrs.data (zh.clientShare resolved n x) :=
    mean_congr fun cur _ => mean_client hfd hr.hosts hx hn cur
  rw [hshare]
  unfold Pool.clientShare
  cases heq : addrvec_eq zh.addrs.data resolved with
  | true =>
    -- Nobody moves, and the hosts are the same.
    have hp := (addrvec_eq_iff ha.hosts ha.known).mp heq
    have hc : addrvec_contains zh.addrs.data x = true :=
      addrvec_contains_iff.mpr ⟨hp.symm.subset (List.mem_map_of_mem hx), hr.known x hx⟩
    have hlen : zh.addrs.data.length = resolved.length := by simpa using hp.length_eq
    have hhere := chance_here ha (hr.known x hx)
    rw [if_pos hc, hlen] at hhere
    unfold chance at hhere
    simp only [if_true, hhere, sub_self, abs_zero]
    positivity
  | false =>
    simp only [Bool.false_eq_true, if_false]
    by_cases hgrew : zh.addrs.data.length < resolved.length
    · simp only [hgrew, if_true]
      exact share_grown ha hr hn hx hgrew
    · simp only [hgrew, if_false]
      exact share_shrunk ha hr hn hx (Nat.le_of_not_lt hgrew)

end

/-- A client of the three servers that is connected. -/
def threeConnected : Pool :=
  { Pool.blank with addrs := .of [server 1, server 2, server 3], fd := true }

/-- A fourth server takes a fourth of the clients, up to the last bit of `drand48`. -/
theorem a_fourth_server_takes_a_fourth :
    |threeConnected.share [server 1, server 2, server 3, server 4] (2 ^ 48) (server 4) - 1 / 4| ≤
      1 / 2 ^ 48 := by
  have ha : Proper threeConnected.addrs.data := ⟨by decide, by decide, by decide⟩
  have hr : Proper [server 1, server 2, server 3, server 4] := ⟨by decide, by decide, by decide⟩
  have hn : 0 < 2 ^ 48 := by decide
  have h := the_clients_spread_evenly (x := server 4) rfl ha hr hn (by decide)
  exact_mod_cast h

end ZookZhubei
