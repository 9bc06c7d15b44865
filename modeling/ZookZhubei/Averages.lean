-- Averages over lists of equally likely cases: over the draws of a generator, and over the
-- orders in which a list can come out of a shuffle.
import Mathlib.Algebra.BigOperators.Group.List.Basic
import Mathlib.Algebra.BigOperators.Ring.List
import Mathlib.Algebra.Order.Floor.Semiring
import Mathlib.Data.List.Permutation
import Mathlib.Data.Rat.Floor
import Mathlib.Logic.Equiv.Basic
import Mathlib.Tactic.FieldSimp
import Mathlib.Tactic.Linarith
import Mathlib.Tactic.Ring

namespace Averages

open scoped List

variable {α β : Type}

/-- The average of `f` over the cases of a list. -/
def mean (l : List α) (f : α → ℚ) : ℚ := (l.map f).sum / l.length

/-- How often `p` holds. -/
def chance (l : List α) (p : α → Prop) [DecidablePred p] : ℚ := mean l fun a => if p a then 1 else 0

theorem mean_congr {l : List α} {f g : α → ℚ} (h : ∀ a ∈ l, f a = g a) : mean l f = mean l g := by
  unfold mean
  rw [List.map_congr_left h]

theorem mean_perm {l l' : List α} (h : l ~ l') (f : α → ℚ) : mean l f = mean l' f := by
  unfold mean
  rw [(h.map f).sum_eq, h.length_eq]

theorem mean_map (l : List β) (g : β → α) (f : α → ℚ) : mean (l.map g) f = mean l fun b => f (g b) := by
  unfold mean
  rw [List.map_map, List.length_map]
  rfl

theorem mean_const {l : List α} (h : l ≠ []) (c : ℚ) : mean l (fun _ => c) = c := by
  have hlen : (l.length : ℚ) ≠ 0 := by
    simpa using h
  unfold mean
  rw [List.map_const', List.sum_replicate, nsmul_eq_mul]
  field_simp

theorem mean_add (l : List α) (f g : α → ℚ) : mean l (fun a => f a + g a) = mean l f + mean l g := by
  unfold mean
  rw [List.sum_map_add, add_div]

theorem mean_mul (l : List α) (c : ℚ) (f : α → ℚ) : mean l (fun a => c * f a) = c * mean l f := by
  unfold mean
  rw [List.sum_map_mul_left, mul_div_assoc]

/-- A case distinction on the draw. -/
theorem mean_ite {l : List α} (h : l ≠ []) (p : α → Prop) [DecidablePred p] (c d : ℚ) :
    mean l (fun a => if p a then c else d) = chance l p * c + (1 - chance l p) * d := by
  have hsplit : ∀ a ∈ l, (if p a then c else d) = d + (c - d) * (if p a then 1 else 0) := by
    intro a _
    split <;> ring
  rw [mean_congr hsplit, mean_add, mean_const h, mean_mul]
  unfold chance
  ring

theorem chance_const {l : List α} (h : l ≠ []) (p : Prop) [Decidable p] :
    chance l (fun _ => p) = if p then 1 else 0 := mean_const h _

theorem chance_eq (l : List α) (p : α → Prop) [DecidablePred p] :
    chance l p = (l.filter (fun a => decide (p a))).length / l.length := by
  unfold chance mean
  congr 1
  induction l with
  | nil => rfl
  | cons a l ih =>
    rw [List.map_cons, List.sum_cons, ih, List.filter_cons]
    by_cases hp : p a
    · simp [hp, add_comm]
    · simp [hp]

/-! ## Draws out of a grid -/

/-- The numbers that a generator with `n` states gives, all equally often. -/
def grid (n : Nat) : List ℚ := (List.range n).map fun k : Nat => (k : ℚ) / n

theorem length_filter_range_le (n m : Nat) :
    ((List.range n).filter fun k => decide (k ≤ m)).length = min n (m + 1) := by
  induction n with
  | zero => simp
  | succ n ih =>
    rw [List.range_succ, List.filter_append, List.length_append, ih]
    by_cases hn : n ≤ m
    · simp [hn]
      omega
    · simp [hn]
      omega

/-- A draw is at most `p` with the chance `p`, as finely as the grid is. -/
theorem chance_grid {n : Nat} (hn : 0 < n) {p : ℚ} (h0 : 0 ≤ p) (h1 : p ≤ 1) :
    |chance (grid n) (· ≤ p) - p| ≤ 1 / n := by
  have hpos : (0 : ℚ) < n := by exact_mod_cast hn
  have hcount : chance (grid n) (· ≤ p) = (min n (⌊p * n⌋₊ + 1) : Nat) / n := by
    unfold chance grid
    rw [mean_map]
    have hiff : ∀ k ∈ List.range n, (if (k : ℚ) / n ≤ p then (1 : ℚ) else 0) =
        if k ≤ ⌊p * n⌋₊ then 1 else 0 := by
      intro k _
      refine if_congr ?_ rfl rfl
      rw [div_le_iff₀ hpos, Nat.le_floor_iff (by positivity)]
    rw [mean_congr hiff]
    have h := chance_eq (List.range n) (· ≤ ⌊p * n⌋₊)
    rw [length_filter_range_le, List.length_range] at h
    exact h
  have hfloor := Nat.floor_le (show (0 : ℚ) ≤ p * n by positivity)
  have hlt := Nat.lt_floor_add_one (p * n)
  rw [hcount, abs_le]
  constructor
  · -- The grid does not fall short of `p` at all.
    have hle : p * n ≤ (min n (⌊p * n⌋₊ + 1) : Nat) := by
      rcases Nat.le_total n (⌊p * n⌋₊ + 1) with hm | hm
      · rw [min_eq_left hm]
        nlinarith
      · rw [min_eq_right hm]
        push_cast
        exact hlt.le
    have : p ≤ ((min n (⌊p * n⌋₊ + 1) : Nat) : ℚ) / n := (le_div_iff₀ hpos).mpr hle
    have hinv : (0 : ℚ) ≤ 1 / n := by positivity
    linarith
  · have hle : ((min n (⌊p * n⌋₊ + 1) : Nat) : ℚ) ≤ ⌊p * n⌋₊ + 1 := by
      exact_mod_cast min_le_right n (⌊p * n⌋₊ + 1)
    have : ((min n (⌊p * n⌋₊ + 1) : Nat) : ℚ) / n ≤ (p * n + 1) / n :=
      div_le_div_of_nonneg_right (by linarith) hpos.le
    have hsplit : (p * n + 1) / n = p + 1 / n := by field_simp
    linarith

theorem chance_grid_one {n : Nat} (hn : 0 < n) : chance (grid n) (· ≤ 1) = 1 := by
  have hpos : (0 : ℚ) < n := by exact_mod_cast hn
  have hall : ∀ k ∈ List.range n, (if (k : ℚ) / n ≤ 1 then (1 : ℚ) else 0) = 1 := by
    intro k hk
    have hlt : (k : ℚ) < n := by exact_mod_cast List.mem_range.mp hk
    exact if_pos ((div_le_one hpos).mpr hlt.le)
  unfold chance grid
  rw [mean_map, mean_congr hall]
  exact mean_const (by simpa using hn.ne') 1

/-- A value that depends on a chance is as close to its limit as the chance is. -/
theorem close_of_close {a b c f p e : ℚ} (h : |f - p| ≤ e) (h0 : 0 ≤ b) (h1 : b ≤ 1)
    (hc : a + b * p = c) : |a + b * f - c| ≤ e := by
  have hdiff : a + b * f - c = b * (f - p) := by
    rw [← hc]
    ring
  rw [hdiff, abs_mul, abs_of_nonneg h0]
  calc b * |f - p|
    _ ≤ 1 * |f - p| := mul_le_mul_of_nonneg_right h1 (abs_nonneg _)
    _ = |f - p| := one_mul _
    _ ≤ e := h

/-! ## The first of a shuffled list -/

section

variable [DecidableEq α]

/-- Two places of a list are exchanged with each other. -/
theorem map_swap_perm {l : List α} (h : l.Nodup) {x y : α} (hx : x ∈ l) (hy : y ∈ l) :
    l.map (Equiv.swap x y) ~ l := by
  refine (List.perm_ext_iff_of_nodup (h.map (Equiv.swap x y).injective) h).mpr fun z => ?_
  constructor
  · intro hz
    obtain ⟨w, hw, rfl⟩ := List.mem_map.mp hz
    rw [Equiv.swap_apply_def]
    split
    · exact hy
    · split
      · exact hx
      · exact hw
  · intro hz
    refine List.mem_map.mpr ⟨Equiv.swap x y z, ?_, Equiv.swap_apply_self x y z⟩
    rw [Equiv.swap_apply_def]
    split
    · exact hy
    · split
      · exact hx
      · exact hz

/-- Of those that `q` picks, two are equally often the first one. -/
theorem chance_first_eq {l : List α} (h : l.Nodup) {q : α → Bool} {x y : α} (hx : x ∈ l) (hy : y ∈ l)
    (hqx : q x = true) (hqy : q y = true) :
    chance l.permutations (fun o => (o.filter q).head? = some x) =
      chance l.permutations (fun o => (o.filter q).head? = some y) := by
  have hperm : (l.permutations).map (List.map (Equiv.swap x y)) ~ l.permutations := by
    rw [List.map_permutations]
    exact (map_swap_perm h hx hy).permutations
  have hq : q ∘ Equiv.swap x y = q := by
    funext z
    rw [Function.comp_apply, Equiv.swap_apply_def]
    split
    · rename_i hz
      rw [hz, hqx, hqy]
    · split
      · rename_i hz
        rw [hz, hqx, hqy]
      · rfl
  unfold chance
  conv_rhs => rw [← mean_perm hperm, mean_map]
  refine mean_congr fun o _ => if_congr ?_ rfl rfl
  simp only [List.filter_map, hq, List.head?_map]
  constructor
  · intro ho
    rw [ho, Option.map_some, Equiv.swap_apply_left]
  · intro ho
    obtain ⟨z, hz, hzy⟩ := Option.map_eq_some_iff.mp ho
    have hzx : z = x := by
      rw [← Equiv.swap_apply_self x y z, hzy, Equiv.swap_apply_right]
    rw [hz, hzx]

theorem length_filter_eq_one {l : List α} (h : l.Nodup) {x : α} (hx : x ∈ l) :
    (l.filter fun a => decide (a = x)).length = 1 := by
  have hcount := h.count (a := x)
  rw [if_pos hx, List.count_eq_length_filter] at hcount
  exact hcount

/-- When each case has exactly one of the marks, the chances of the marks add up to 1. -/
theorem sum_chance {l : List β} (h : l ≠ []) {marks : List α} (hn : marks.Nodup)
    {f : β → Option α} (hf : ∀ b ∈ l, ∃ x ∈ marks, f b = some x) :
    (marks.map fun x => chance l fun b => f b = some x).sum = 1 := by
  have hone : ∀ b ∈ l, (marks.map fun x => if f b = some x then (1 : ℚ) else 0).sum = 1 := by
    intro b hb
    obtain ⟨x, hx, hfx⟩ := hf b hb
    have heq : ∀ y ∈ marks, (if f b = some y then (1 : ℚ) else 0) = if y = x then 1 else 0 := by
      intro y _
      rw [hfx]
      exact if_congr ⟨fun hh => (Option.some.inj hh).symm, fun hh => hh ▸ rfl⟩ rfl rfl
    rw [List.map_congr_left heq]
    have hc := chance_eq marks (· = x)
    have hlen : (marks.length : ℚ) ≠ 0 := by
      simpa using List.ne_nil_of_mem hx
    unfold chance mean at hc
    rw [length_filter_eq_one hn hx] at hc
    field_simp at hc
    exact_mod_cast hc
  have hswap : ∀ l : List β, (marks.map fun x => (l.map fun b =>
      if f b = some x then (1 : ℚ) else 0).sum).sum =
      (l.map fun b => (marks.map fun x => if f b = some x then (1 : ℚ) else 0).sum).sum := by
    intro l
    induction l with
    | nil => simp
    | cons b l ih =>
      simp only [List.map_cons, List.sum_cons, List.sum_map_add, ih]
  have hlen : (l.length : ℚ) ≠ 0 := by simpa using h
  unfold chance mean
  simp only [div_eq_mul_inv]
  rw [List.sum_map_mul_right, hswap, List.map_congr_left hone, List.map_const', List.sum_replicate,
    nsmul_eq_mul]
  field_simp

/-- Of those that `q` picks, each one is the first with the same chance. -/
theorem chance_first {l : List α} (h : l.Nodup) {q : α → Bool} {x : α} (hx : x ∈ l)
    (hq : q x = true) :
    chance l.permutations (fun o => (o.filter q).head? = some x) = 1 / (l.filter q).length := by
  have hmem : x ∈ l.filter q := List.mem_filter.mpr ⟨hx, hq⟩
  have hsum := sum_chance (l := l.permutations) (f := fun o => (o.filter q).head?)
    (List.ne_nil_of_mem (List.mem_permutations.mpr (List.Perm.refl l))) (h.filter q) (by
      intro o ho
      have hp := (List.mem_permutations.mp ho).filter q
      obtain ⟨y, rest, hy⟩ := List.exists_cons_of_ne_nil (List.ne_nil_of_mem (hp.mem_iff.mpr hmem))
      exact ⟨y, hp.subset (by simp [hy]), by simp [hy]⟩)
  have hall : ∀ y ∈ l.filter q, chance l.permutations (fun o => (o.filter q).head? = some y) =
      chance l.permutations (fun o => (o.filter q).head? = some x) := by
    intro y hy
    obtain ⟨hyl, hqy⟩ := List.mem_filter.mp hy
    exact chance_first_eq h hyl hx hqy hq
  rw [List.map_congr_left hall, List.map_const', List.sum_replicate, nsmul_eq_mul] at hsum
  have hlen : ((l.filter q).length : ℚ) ≠ 0 := by
    simpa using List.ne_nil_of_mem hmem
  rw [eq_div_iff hlen, mul_comm]
  exact hsum

end

end Averages
