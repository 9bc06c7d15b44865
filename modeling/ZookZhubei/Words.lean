-- Words inside a list. Where a word first occurs, what it means to replace
-- its occurrences from left to right, and the last part of a list that is
-- cut at separators.
import Mathlib.Data.List.Infix

namespace Words

variable {α : Type}

/-- The place at which the word `w` first occurs. -/
def find [DecidableEq α] (w : List α) : List α → Option Nat
  | [] => if w = [] then some 0 else none
  | c :: s => if w.isPrefixOf (c :: s) then some 0 else (find w s).map (· + 1)

/-- `t` is `s` with every occurrence of `src` replaced by `dst`: none is left out,
the first one is taken first, and the search goes on behind it. -/
inductive Replaced (src dst : List α) : List α → List α → Prop
  | rest {s : List α} : ¬ src <:+: s → Replaced src dst s s
  | first {a s t : List α} : (∀ j < a.length, ¬ src <+: (a ++ (src ++ s)).drop j) →
      Replaced src dst s t → Replaced src dst (a ++ (src ++ s)) (a ++ (dst ++ t))

variable {w src dst s t : List α}

/-! ## The first occurrence -/

theorem find_eq_none [DecidableEq α] (h : find w s = none) : ¬ w <:+: s := by
  induction s with
  | nil =>
    simp only [find] at h
    split at h
    · cases h
    · rename_i hw
      simpa using hw
  | cons c s ih =>
    simp only [find] at h
    split at h
    · cases h
    · rename_i hp
      rw [List.infix_cons_iff]
      rintro (hw | hw)
      · exact hp (List.isPrefixOf_iff_prefix.mpr hw)
      · exact ih (by simpa using h) hw

/-- A place that `find` gives splits the list there, and no place before it
would do. -/
theorem find_eq_some [DecidableEq α] {i : Nat} (h : find w s = some i) :
    ∃ a b, s = a ++ (w ++ b) ∧ a.length = i ∧ ∀ j < i, ¬ w <+: s.drop j := by
  induction s generalizing i with
  | nil =>
    simp only [find] at h
    split at h
    · rename_i hw
      cases h
      exact ⟨[], [], by simp [hw], rfl, by simp⟩
    · cases h
  | cons c s ih =>
    simp only [find] at h
    split at h
    · rename_i hp
      cases h
      obtain ⟨b, hb⟩ := List.isPrefixOf_iff_prefix.mp hp
      exact ⟨[], b, by simpa using hb.symm, rfl, by simp⟩
    · rename_i hp
      obtain ⟨k, hk, rfl⟩ := Option.map_eq_some_iff.mp h
      obtain ⟨a, b, rfl, ha, hfirst⟩ := ih hk
      refine ⟨c :: a, b, rfl, by simp [ha], ?_⟩
      intro j hj
      cases j with
      | zero => exact fun hw => hp (List.isPrefixOf_iff_prefix.mpr hw)
      | succ j => exact hfirst j (by omega)

/-! ## One result only -/

theorem Replaced.unique {t' : List α} (h : Replaced src dst s t) (h' : Replaced src dst s t') :
    t = t' := by
  induction h generalizing t' with
  | rest hn =>
    cases h' with
    | rest _ => rfl
    | first _ _ => exact absurd ⟨_, _, List.append_assoc _ _ _⟩ hn
  | @first a u v hf _ ih =>
    generalize hs : a ++ (src ++ u) = s at h'
    cases h' with
    | rest hn => exact absurd ⟨a, u, by rw [← hs, List.append_assoc]⟩ hn
    | @first a' u' v' hf' hv' =>
      -- both splits are at the first occurrence
      have hocc : ∀ b x : List α, src <+: (b ++ (src ++ x)).drop b.length := by
        intro b x
        simp
      have hle : ¬ a'.length < a.length := fun hlt =>
        hf a'.length hlt (by rw [hs]; exact hocc a' u')
      have hge : ¬ a.length < a'.length := fun hlt =>
        hf' a.length hlt (by rw [← hs]; exact hocc a u)
      obtain ⟨rfl, hrest⟩ := List.append_inj hs (by omega)
      obtain rfl := List.append_cancel_left hrest
      rw [ih hv']

/-! ## A word of one letter -/

/-- A letter at which the word does not begin is passed over. -/
theorem Replaced.cons {c : α} (hc : ¬ src <+: c :: s) (h : Replaced src dst s t) :
    Replaced src dst (c :: s) (c :: t) := by
  cases h with
  | rest hn =>
    refine .rest fun hw => ?_
    rcases List.infix_cons_iff.mp hw with hw | hw
    · exact hc hw
    · exact hn hw
  | @first a u v hf hv =>
    refine .first (a := c :: a) (fun j hj => ?_) hv
    cases j with
    | zero => exact hc
    | succ j => exact hf j (by simpa using hj)

/-- Replacing one letter by one letter changes no place. -/
theorem replaced_map [DecidableEq α] (a b : α) (s : List α) :
    Replaced [a] [b] s (s.map fun c => if c = a then b else c) := by
  induction s with
  | nil => exact .rest (by simp)
  | cons c s ih =>
    rw [List.map_cons]
    split
    · rename_i hc
      subst hc
      exact .first (a := []) (by simp) ih
    · rename_i hc
      refine ih.cons ?_
      rw [List.cons_prefix_cons]
      exact fun h => hc h.1.symm

/-! ## The last part -/

/-- A list has no separator, or a last one. -/
theorem last_separator (sep : α → Prop) (s : List α) :
    (∀ c ∈ s, ¬ sep c) ∨ ∃ a c u, s = a ++ c :: u ∧ sep c ∧ ∀ x ∈ u, ¬ sep x := by
  induction s with
  | nil => exact Or.inl (by simp)
  | cons x s ih =>
    rcases ih with h | ⟨a, c, u, rfl, hc, hu⟩
    · by_cases hx : sep x
      · exact Or.inr ⟨[], x, s, rfl, hx, h⟩
      · left
        intro c hc
        rcases List.mem_cons.mp hc with rfl | hc
        · exact hx
        · exact h c hc
    · exact Or.inr ⟨x :: a, c, u, rfl, hc, hu⟩

/-- Nothing longer than the part behind a separator is free of separators. -/
theorem suffix_of_last_separator {sep : α → Prop} {a u v : List α} {c : α} (hc : sep c)
    (hv : v <:+ a ++ c :: u) (hfree : ∀ x ∈ v, ¬ sep x) : v <:+ u := by
  rcases List.suffix_or_suffix_of_suffix hv (List.suffix_append a (c :: u)) with h | h
  · rcases List.suffix_cons_iff.mp h with rfl | h
    · exact absurd hc (hfree c List.mem_cons_self)
    · exact h
  · exact absurd hc (hfree c (h.subset List.mem_cons_self))

end Words
