-- The servers of a handle (addrvec.c): a list of addresses with a cursor that goes round
-- it, the comparison of two such lists, and the shuffle that gives each client an order
-- of its own.
import Mathlib.Data.List.Permutation

namespace ZookZhubei

open scoped List

/-! ## Addresses -/

inductive Family
  | unspec
  | inet
  | inet6
deriving DecidableEq, Repr

/-- A `sockaddr_storage`. `ip` is `sin_addr` or `sin6_addr`. -/
structure Addr where
  family : Family
  ip : Nat
  port : Nat
deriving DecidableEq, Repr

/-- What `memset` leaves. -/
def Addr.zero : Addr := { family := .unspec, ip := 0, port := 0 }

/-- The comparison of `addrvec_contains`. It does not look at the port. -/
def Addr.sameHost (a b : Addr) : Bool := a.family == b.family && b.family != .unspec && a.ip == b.ip

def Addr.host (a : Addr) : Family × Nat := (a.family, a.ip)

theorem sameHost_iff {a b : Addr} :
    a.sameHost b = true ↔ a.host = b.host ∧ b.family ≠ .unspec := by
  unfold Addr.sameHost Addr.host
  simp only [Bool.and_eq_true, beq_iff_eq, bne_iff_ne, Prod.mk.injEq]
  constructor
  · exact fun h => ⟨⟨h.1.1, h.2⟩, h.1.2⟩
  · exact fun h => ⟨⟨h.1.1, h.2⟩, h.1.2⟩

/-! ## Vectors -/

/-- An `addrvec_t`. `next` runs up to the end of the list. -/
structure AddrVec where
  data : List Addr
  next : Nat
  le : next ≤ data.length
deriving DecidableEq, Repr

/-- A vector with its cursor at the start. -/
def AddrVec.of (data : List Addr) : AddrVec := { data, next := 0, le := Nat.zero_le _ }

def addrvec_contains (data : List Addr) (addr : Addr) : Bool := data.any fun d => d.sameHost addr

def addrvec_eq (a1 a2 : List Addr) : Bool :=
  a1.length == a2.length && a1.all fun addr => addrvec_contains a2 addr

def addrvec_hasnext (avec : AddrVec) : Bool :=
  decide (0 < avec.data.length) && decide (avec.next < avec.data.length)

def addrvec_atend (avec : AddrVec) : Bool :=
  decide (0 < avec.data.length) && decide (avec.data.length ≤ avec.next)

def addrvec_next (avec : AddrVec) : AddrVec × Addr :=
  let avec := if addrvec_atend avec then AddrVec.of avec.data else avec
  if h : avec.next < avec.data.length then
    ({ data := avec.data, next := avec.next + 1, le := h }, avec.data[avec.next])
  else (avec, .zero)

theorem addrvec_contains_iff {data : List Addr} {addr : Addr} :
    addrvec_contains data addr = true ↔
      addr.host ∈ data.map Addr.host ∧ addr.family ≠ .unspec := by
  unfold addrvec_contains
  simp only [List.any_eq_true, sameHost_iff, List.mem_map]
  constructor
  · rintro ⟨d, hd, hh, hf⟩
    exact ⟨⟨d, hd, hh⟩, hf⟩
  · rintro ⟨⟨d, hd, hh⟩, hf⟩
    exact ⟨d, hd, hh, hf⟩

theorem addrvec_hasnext_iff {avec : AddrVec} :
    addrvec_hasnext avec = true ↔ avec.next < avec.data.length := by
  simp only [addrvec_hasnext, Bool.and_eq_true, decide_eq_true_eq]
  omega

/-- The cursor goes round the list, and gives the address it stood at. -/
theorem addrvec_next_spec {avec : AddrVec} (h : 0 < avec.data.length) :
    (addrvec_next avec).1.data = avec.data ∧
      (addrvec_next avec).1.next = avec.next % avec.data.length + 1 ∧
      avec.data[avec.next % avec.data.length]? = some (addrvec_next avec).2 := by
  have hle := avec.le
  unfold addrvec_next
  by_cases hend : avec.data.length ≤ avec.next
  · have hn : avec.next % avec.data.length = 0 := by
      rw [Nat.le_antisymm hle hend]
      exact Nat.mod_self _
    simp [addrvec_atend, h, hend, AddrVec.of, hn]
  · have hn : avec.next % avec.data.length = avec.next := Nat.mod_eq_of_lt (by omega)
    have hlt : avec.next < avec.data.length := by omega
    simp [addrvec_atend, hend, hn, hlt]

/-- A list without a host twice is equal to another one when both have the same hosts. -/
theorem addrvec_eq_iff {a1 a2 : List Addr} (h1 : (a1.map Addr.host).Nodup)
    (hf : ∀ a ∈ a1, a.family ≠ .unspec) :
    addrvec_eq a1 a2 = true ↔ (a1.map Addr.host).Perm (a2.map Addr.host) := by
  unfold addrvec_eq
  simp only [Bool.and_eq_true, beq_iff_eq, List.all_eq_true, addrvec_contains_iff]
  constructor
  · rintro ⟨hlen, hall⟩
    have hsub : a1.map Addr.host ⊆ a2.map Addr.host := by
      intro x hx
      obtain ⟨a, ha, rfl⟩ := List.mem_map.mp hx
      exact (hall a ha).1
    exact (List.subperm_of_subset h1 hsub).perm_of_length_le (by simp [hlen])
  · intro hp
    refine ⟨by simpa using hp.length_eq, fun a ha => ⟨?_, hf a ha⟩⟩
    exact hp.subset (List.mem_map_of_mem ha)

/-! ## The shuffle -/

section

variable {α : Type}

/-- `data[i]` and `data[j]` change places. -/
def swapAt (data : List α) (i j : Nat) : List α :=
  match data[i]?, data[j]? with
  | some a, some b => (data.set i b).set j a
  | _, _ => data

/-- The loop of `addrvec_shuffle` from place `i` down. `random` gives the draw for each
place. -/
def shuffle_loop (random : Nat → Nat) : Nat → List α → List α
  | 0, data => data
  | i + 1, data => shuffle_loop random i (swapAt data (i + 1) (random (i + 1) % (i + 2)))

def addrvec_shuffle (data : List α) (random : Nat → Nat) : List α :=
  shuffle_loop random (data.length - 1) data

/-- All the draws for the places up to `i`: one of `k + 1` numbers for each place `k`. -/
def allDraws : Nat → List (Nat → Nat)
  | 0 => [fun _ => 0]
  | i + 1 => (List.range (i + 2)).flatMap fun j =>
      (allDraws i).map fun random => Function.update random (i + 1) j

/-- The loop does not look at the draws for the places behind. -/
theorem shuffle_loop_update (random : Nat → Nat) {i k : Nat} (h : i < k) (j : Nat) (data : List α) :
    shuffle_loop (Function.update random k j) i data = shuffle_loop random i data := by
  induction i generalizing data with
  | zero => rfl
  | succ i ih =>
    simp only [shuffle_loop]
    rw [Function.update_of_ne (by omega), ih (by omega)]

theorem swapAt_map {β : Type} (f : α → β) (data : List α) (i j : Nat) :
    swapAt (data.map f) i j = (swapAt data i j).map f := by
  unfold swapAt
  simp only [List.getElem?_map]
  cases data[i]? with
  | none => rfl
  | some a =>
    cases data[j]? with
    | none => rfl
    | some b => simp only [Option.map_some, List.map_set]

theorem shuffle_loop_map {β : Type} (f : α → β) (random : Nat → Nat) (i : Nat) (data : List α) :
    shuffle_loop random i (data.map f) = (shuffle_loop random i data).map f := by
  induction i generalizing data with
  | zero => rfl
  | succ i ih =>
    simp only [shuffle_loop]
    rw [swapAt_map, ih]

/-- What the turn for the last place of `front ++ [x]` does with its draw: the one at `j`
goes to the end, and the last one to the place of it. -/
theorem swapAt_last (front back : List α) (x : α) {j : Nat} (h : j ≤ front.length) :
    swapAt (front ++ x :: back) front.length j =
      front.set j x ++ (front ++ [x])[j]?.getD x :: back := by
  unfold swapAt
  rw [List.getElem?_append_right (Nat.le_refl _)]
  rcases Nat.lt_or_eq_of_le h with hj | rfl
  · rw [List.getElem?_append_left hj, List.getElem?_append_left hj]
    simp [hj]
  · simp [List.set_eq_of_length_le]

theorem set_append_getD_perm (front : List α) (x : α) {j : Nat} (h : j ≤ front.length) :
    (front.set j x ++ [(front ++ [x])[j]?.getD x]).Perm (front ++ [x]) := by
  rcases Nat.lt_or_eq_of_le h with hj | rfl
  · have hx : (front ++ [x])[j]?.getD x = front[j] := by
      rw [List.getElem?_append_left hj]
      simp [hj]
    rw [hx]
    calc front.set j x ++ [front[j]]
      _ ~ (x :: front.eraseIdx j) ++ [front[j]] := (List.set_perm_cons_eraseIdx hj x).append_right _
      _ ~ [front[j]] ++ (x :: front.eraseIdx j) := List.perm_append_comm
      _ ~ x :: front[j] :: front.eraseIdx j := List.Perm.swap ..
      _ ~ x :: front := (List.getElem_cons_eraseIdx_perm hj).cons x
      _ ~ front ++ [x] := (List.perm_append_singleton x front).symm
  · simp [List.set_eq_of_length_le]

/-- The permutations by what stands at their end. -/
theorem permutations_by_last (front : List α) (x : α) (h : (front ++ [x]).Nodup) :
    ((List.range (front.length + 1)).flatMap fun j =>
      (front.set j x).permutations.map fun l => l ++ [(front ++ [x])[j]?.getD x]).Perm
        (front ++ [x]).permutations := by
  refine (List.perm_ext_iff_of_nodup ?_ (List.nodup_permutations _ h)).mpr fun l => ?_
  · refine List.nodup_flatMap.mpr ⟨fun j hj => ?_, ?_⟩
    · have hle : j ≤ front.length := by
        have := List.mem_range.mp hj
        omega
      have hset : (front.set j x).Nodup :=
        (List.nodup_append.mp ((set_append_getD_perm front x hle).nodup_iff.mpr h)).1
      exact (List.nodup_permutations _ hset).map fun a b hab => List.append_cancel_right hab
    · -- Two different ends give two different lists.
      refine List.Pairwise.imp_of_mem ?_ (List.nodup_range (n := front.length + 1))
      intro i j hi hj hne l hl1 hl2
      obtain ⟨a, -, rfl⟩ := List.mem_map.mp hl1
      obtain ⟨b, -, hb⟩ := List.mem_map.mp hl2
      have hend := (List.append_inj' hb rfl).2
      rw [List.mem_range] at hi hj
      have hi' : i < (front ++ [x]).length := by simpa using hi
      have hj' : j < (front ++ [x]).length := by simpa using hj
      rw [List.getElem?_eq_getElem hi', List.getElem?_eq_getElem hj', List.cons.injEq] at hend
      exact hne ((List.Nodup.getElem_inj_iff h).mp hend.1.symm)
  · simp only [List.mem_flatMap, List.mem_range, List.mem_map, List.mem_permutations]
    constructor
    · rintro ⟨j, hj, q, hq, rfl⟩
      exact (hq.append_right _).trans (set_append_getD_perm front x (by omega))
    · intro hl
      have hne : l ≠ [] := by
        rintro rfl
        simpa using hl.length_eq
      obtain ⟨q, c, rfl⟩ := (List.eq_nil_or_concat' l).resolve_left hne
      have hmem : c ∈ front ++ [x] := hl.subset (by simp)
      obtain ⟨j, hj, hc⟩ := List.mem_iff_getElem.mp hmem
      have hlt : j < front.length + 1 := by simpa using hj
      have hgd : (front ++ [x])[j]?.getD x = c := by
        rw [List.getElem?_eq_getElem hj, hc]
        rfl
      refine ⟨j, hlt, q, ?_, by rw [hgd]⟩
      have hset := set_append_getD_perm front x (Nat.le_of_lt_succ hlt)
      rw [hgd] at hset
      exact (List.perm_append_right_iff [c]).mp (hl.trans hset.symm)

/-- From place `i` down the loop gives each order of the first `i + 1` addresses once. -/
theorem shuffle_loop_perm (front back : List α) (h : front.Nodup) {i : Nat}
    (hi : front.length = i + 1) :
    ((allDraws i).map fun random => shuffle_loop random i (front ++ back)).Perm
      (front.permutations.map fun l => l ++ back) := by
  induction i generalizing front back with
  | zero =>
    obtain ⟨x, rfl⟩ := List.length_eq_one_iff.mp hi
    simp [allDraws, shuffle_loop, List.permutations]
  | succ i ih =>
    obtain ⟨front, x, rfl⟩ :=
      (List.eq_nil_or_concat' front).resolve_left (by rintro rfl; simp at hi)
    have hlen : front.length = i + 1 := by simpa using hi
    calc (allDraws (i + 1)).map fun random => shuffle_loop random (i + 1) (front ++ [x] ++ back)
      _ = (List.range (i + 2)).flatMap fun j => (allDraws i).map fun random =>
            shuffle_loop random i (swapAt (front ++ x :: back) front.length j) := by
          rw [allDraws, List.map_flatMap]
          refine List.flatMap_congr fun j hj => ?_
          rw [List.map_map]
          refine List.map_congr_left fun random _ => ?_
          simp only [Function.comp_apply, shuffle_loop, Function.update_self]
          rw [shuffle_loop_update random (by omega), Nat.mod_eq_of_lt (List.mem_range.mp hj), hlen]
          simp
      _ ~ (List.range (i + 2)).flatMap fun j => ((front.set j x).permutations.map fun l =>
            l ++ [(front ++ [x])[j]?.getD x]).map fun l => l ++ back := by
          refine List.Perm.flatMap_left _ fun j hj => ?_
          have hj : j ≤ front.length := by
            have := List.mem_range.mp hj
            omega
          have hset : (front.set j x).Nodup :=
            (List.nodup_append.mp ((set_append_getD_perm front x hj).nodup_iff.mpr h)).1
          rw [swapAt_last front back x hj, List.map_map]
          refine (ih (front.set j x) _ hset (by simpa using hlen)).trans (.of_eq ?_)
          simp
      _ = ((List.range (front.length + 1)).flatMap fun j => (front.set j x).permutations.map
            fun l => l ++ [(front ++ [x])[j]?.getD x]).map fun l => l ++ back := by
          rw [List.map_flatMap, hlen]
      _ ~ (front ++ [x]).permutations.map fun l => l ++ back :=
          (permutations_by_last front x h).map _

/-- All the draws for a list give all its permutations. -/
theorem addrvec_shuffle_perm (data : List α) :
    ((allDraws (data.length - 1)).map fun random => addrvec_shuffle data random).Perm
      data.permutations := by
  -- The places are without repetition, whatever stands in them.
  have hplaces : ∀ (places : List (Fin data.length)), places.Nodup →
      ((allDraws (places.length - 1)).map fun random => addrvec_shuffle places random).Perm
        places.permutations := by
    intro places hn
    cases places with
    | nil => simp [addrvec_shuffle, allDraws, shuffle_loop]
    | cons p ps => simpa [addrvec_shuffle] using shuffle_loop_perm (p :: ps) [] hn rfl
  have h := (hplaces (List.finRange data.length) (List.nodup_finRange _)).map (List.map data.get)
  rw [List.map_permutations, List.map_get_finRange, List.map_map, List.length_finRange] at h
  refine (List.Perm.of_eq (List.map_congr_left fun random _ => ?_)).trans h
  unfold addrvec_shuffle
  rw [Function.comp_apply, ← shuffle_loop_map, List.map_get_finRange, List.length_finRange]

/-- Only the remainders of `random()` count. -/
theorem exists_draws (random : Nat → Nat) (i : Nat) :
    ∃ draws ∈ allDraws i, ∀ data : List α, shuffle_loop random i data = shuffle_loop draws i data := by
  induction i with
  | zero => exact ⟨fun _ => 0, by simp [allDraws], fun _ => rfl⟩
  | succ i ih =>
    obtain ⟨draws, hd, heq⟩ := ih
    refine ⟨Function.update draws (i + 1) (random (i + 1) % (i + 2)), ?_, fun data => ?_⟩
    · simp only [allDraws, List.mem_flatMap, List.mem_range, List.mem_map]
      exact ⟨random (i + 1) % (i + 2), Nat.mod_lt _ (by omega), draws, hd, rfl⟩
    · simp only [shuffle_loop, Function.update_self, Nat.mod_mod]
      rw [heq, shuffle_loop_update draws (by omega)]

/-- Whatever `random()` gives comes down to one of the draws, and each order of a list
without repetition comes out of exactly one of these. -/
theorem the_shuffle_is_fair [DecidableEq α] {data : List α} (h : data.Nodup) :
    (∀ random, ∃ draws ∈ allDraws (data.length - 1),
        addrvec_shuffle data random = addrvec_shuffle data draws) ∧
      ∀ order, (allDraws (data.length - 1)).countP (fun draws => addrvec_shuffle data draws == order) =
        if order.Perm data then 1 else 0 := by
  refine ⟨fun random => ?_, fun order => ?_⟩
  · obtain ⟨draws, hd, heq⟩ := exists_draws (α := α) random (data.length - 1)
    exact ⟨draws, hd, heq data⟩
  · have hcount := (addrvec_shuffle_perm data).count_eq order
    rw [(List.nodup_permutations data h).count, List.count_eq_countP, List.countP_map] at hcount
    simpa [Function.comp_def, List.mem_permutations] using hcount

/-- The six draws for three servers, one for each order of them. -/
theorem the_shuffle_of_three_is_fair :
    (allDraws 2).length = 6 ∧
      (allDraws 2).countP (fun draws => addrvec_shuffle [10, 20, 30] draws == [30, 10, 20]) = 1 := by
  refine ⟨by decide, ?_⟩
  have hn : [10, 20, 30].Nodup := by decide
  have h := (the_shuffle_is_fair hn).2 [30, 10, 20]
  rw [if_pos (by decide)] at h
  exact h

end

end ZookZhubei
