-- The replacement of a text inside a string, in place, and the last part of
-- a path. The loop changes the string that it searches. See
-- `extract_filename.h`.
import ZookZhubei.Runs
import ZookZhubei.Client
import ZookZhubei.Words

namespace ZookZhubei

open Runs

/-! ## The operations of `std::string` -/

/-- `find` from `pos` on. It is `none` for `npos`. -/
def strFind (s sub : Str) (pos : Nat) : Option Nat :=
  if pos ≤ s.length then (Words.find sub (s.drop pos)).map (· + pos) else none

/-- `replace` of the `n` bytes at `pos`. -/
def strReplace (s : Str) (pos n : Nat) (str : Str) : Str := s.take pos ++ (str ++ s.drop (pos + n))

/-- `find_last_of` of one byte. -/
def find_last_of (s : Str) (c : UInt8) : Option Nat :=
  (s.reverse.findIdx? (· == c)).map fun k => s.length - 1 - k

/-- One more than a `size_type`. `npos` is the largest one, so it wraps to 0. -/
def sizeSucc : Option Nat → Nat
  | some i => i + 1
  | none => 0

def substr (s : Str) (pos n : Nat) : Str := (s.drop pos).take n

/-! ## `string_replace` -/

/-- One pass of the loop over `strBig` and `pos`. It is `none` when `find`
gives `npos`. -/
def replacePass (strsrc strdst : Str) (s : Str × Nat) : Option (Str × Nat) :=
  (strFind s.1 strsrc s.2).map fun pos =>
    (strReplace s.1 pos strsrc.length strdst, pos + strdst.length)

/-- The loop. It is `none` when the passes run out before the loop ends. -/
def replaceLoop (strsrc strdst : Str) : Nat → Str × Nat → Option Str
  | 0, _ => none
  | passes + 1, s => match replacePass strsrc strdst s with
    | some s' => replaceLoop strsrc strdst passes s'
    | none => some s.1

/-- `strBig` after `string_replace`. -/
def string_replace (passes : Nat) (strBig strsrc strdst : Str) : Option Str :=
  replaceLoop strsrc strdst passes (strBig, 0)

/-- The states that the loop passes. -/
def replacing (strBig strsrc strdst : Str) : System (Str × Nat) Unit where
  start s := s = (strBig, 0)
  step s _ := replacePass strsrc strdst s

variable {strsrc strdst : Str}

/-- With `out` behind it and `rest` before it, the loop looks at `rest` only. -/
theorem replacePass_append (out rest : Str) :
    replacePass strsrc strdst (out ++ rest, out.length) =
      (Words.find strsrc rest).map fun i =>
        (out ++ (rest.take i ++ (strdst ++ rest.drop (i + strsrc.length))),
          i + out.length + strdst.length) := by
  have hfind : strFind (out ++ rest) strsrc out.length =
      (Words.find strsrc rest).map (· + out.length) := by
    simp [strFind]
  simp only [replacePass, hfind, Option.map_map]
  congr 1
  funext i
  have hdrop : (out ++ rest).drop (i + out.length + strsrc.length) =
      rest.drop (i + strsrc.length) := by
    rw [Nat.add_right_comm, Nat.add_comm, List.drop_length_add_append]
  have htake : (out ++ rest).take (i + out.length) = out ++ rest.take i := by
    rw [Nat.add_comm, List.take_length_add_append]
  simp [strReplace, hdrop, htake]

/-- The same pass, with the split at the occurrence that it finds. -/
theorem replacePass_split (strsrc strdst out rest : Str) :
    (replacePass strsrc strdst (out ++ rest, out.length) = none ∧ ¬ strsrc <:+: rest) ∨
      ∃ a b, rest = a ++ (strsrc ++ b) ∧ (∀ j < a.length, ¬ strsrc <+: rest.drop j) ∧
        replacePass strsrc strdst (out ++ rest, out.length) =
          some ((out ++ (a ++ strdst)) ++ b, (out ++ (a ++ strdst)).length) := by
  rw [replacePass_append]
  cases hf : Words.find strsrc rest with
  | none => exact Or.inl ⟨rfl, Words.find_eq_none hf⟩
  | some i =>
    obtain ⟨a, b, rfl, rfl, hfirst⟩ := Words.find_eq_some hf
    refine Or.inr ⟨a, b, rfl, hfirst, ?_⟩
    have hdrop : (a ++ (strsrc ++ b)).drop (a.length + strsrc.length) = b := by
      rw [List.drop_length_add_append, List.drop_left]
    simp only [Option.map_some, hdrop, List.take_left, Option.some.injEq, Prod.mk.injEq]
    refine ⟨by simp, ?_⟩
    simp only [List.length_append]
    omega

/-- From every state with enough passes, the loop ends, and replaces the
occurrences in the part before it. -/
theorem replaceLoop_replaced {strsrc : Str} (strdst : Str) (hsrc : strsrc ≠ []) (passes : Nat) :
    ∀ out rest : Str, rest.length < passes → ∃ t, Words.Replaced strsrc strdst rest t ∧
      replaceLoop strsrc strdst passes (out ++ rest, out.length) = some (out ++ t) := by
  induction passes with
  | zero =>
    intro out rest h
    cases h
  | succ passes ih =>
    intro out rest h
    rcases replacePass_split strsrc strdst out rest with ⟨hp, hn⟩ | ⟨a, b, rfl, hfirst, hp⟩
    · refine ⟨rest, .rest hn, ?_⟩
      simp only [replaceLoop, hp]
    · -- the occurrence is not empty, so less is left
      have hpos : 0 < strsrc.length := List.length_pos_of_ne_nil hsrc
      have hlt : b.length < passes := by
        simp only [List.length_append] at h
        omega
      obtain ⟨t, ht, hl⟩ := ih (out ++ (a ++ strdst)) b hlt
      refine ⟨a ++ (strdst ++ t), .first hfirst ht, ?_⟩
      simp only [replaceLoop, hp]
      rw [hl]
      simp only [List.append_assoc]

/-- What the loop has still to look at is text of the original string. -/
def Unscanned (strBig : Str) (s : Str × Nat) : Prop :=
  ∃ out rest : Str, s = (out ++ rest, out.length) ∧ rest <:+ strBig

theorem replacing_unscanned {strBig : Str} {s : Str × Nat}
    (h : (replacing strBig strsrc strdst).Reach s) : Unscanned strBig s := by
  apply System.Reach.invariant (P := Unscanned strBig) _ _ h
  · rintro s rfl
    exact ⟨[], strBig, rfl, List.suffix_refl _⟩
  · rintro s _ s' ⟨out, rest, rfl, hrest⟩ hs
    rcases replacePass_split strsrc strdst out rest with ⟨hp, _⟩ | ⟨a, b, rfl, _, hp⟩
    · simp only [replacing, hp] at hs
      cases hs
    · simp only [replacing, hp] at hs
      cases hs
      refine ⟨out ++ (a ++ strdst), b, rfl, List.IsSuffix.trans ?_ hrest⟩
      exact ⟨a ++ strsrc, List.append_assoc _ _ _⟩

/-- For every text to look for that is not empty, `string_replace` ends. It
leaves the one string in which the occurrences are replaced from left to
right. What `find` still has to look at is text of the original, so nothing
that was put in is looked at again. -/
theorem string_replace_is_left_to_right (strBig strsrc strdst : Str) (passes : Nat)
    (hsrc : strsrc ≠ []) (hpasses : strBig.length < passes) :
    (∃ t, string_replace passes strBig strsrc strdst = some t ∧
      ∀ t', Words.Replaced strsrc strdst strBig t' ↔ t' = t) ∧
    ∀ s, (replacing strBig strsrc strdst).Reach s → s.2 ≤ s.1.length ∧ s.1.drop s.2 <:+ strBig := by
  refine ⟨?_, ?_⟩
  · obtain ⟨t, ht, hl⟩ := replaceLoop_replaced strdst hsrc passes [] strBig hpasses
    refine ⟨t, hl, fun t' => ⟨fun h => h.unique ht, ?_⟩⟩
    rintro rfl
    exact ht
  · intro s hs
    obtain ⟨out, rest, rfl, hrest⟩ := replacing_unscanned hs
    simpa using hrest

/-- The text that is put in holds the text to look for, twice. -/
theorem string_replace_is_left_to_right_of_aba :
    ∃ t, string_replace 6 (str "aabab") (str "ab") (str "abab") = some t ∧
      Words.Replaced (str "ab") (str "abab") (str "aabab") t ∧ t = str "aabababab" := by
  obtain ⟨t, ht, hiff⟩ := (string_replace_is_left_to_right (str "aabab") (str "ab")
    (str "abab") 6 (by decide) (by decide)).1
  refine ⟨t, ht, (hiff t).mpr rfl, ?_⟩
  have he : string_replace 6 (str "aabab") (str "ab") (str "abab") = some (str "aabababab") := by
    decide
  rw [he] at ht
  cases ht
  rfl

/-! ## `extract_filename` -/

def backslash : UInt8 := 92

def extract_filename (passes : Nat) (strFullName : Str) : Option Str :=
  if strFullName = [] then some []
  else (string_replace passes strFullName (str "/") (str "\\")).map fun s =>
    let iPos := sizeSucc (find_last_of s backslash)
    substr s iPos (s.length - iPos)

/-- The two bytes that end a directory. -/
def isSeparator (c : UInt8) : Prop := c = slash ∨ c = backslash

/-- What the replacement makes of one byte. -/
def toBackslash (c : UInt8) : UInt8 := if c = slash then backslash else c

theorem toBackslash_separator {c : UInt8} (h : isSeparator c) : toBackslash c = backslash := by
  rcases h with rfl | rfl <;> rfl

theorem map_toBackslash {u : Str} (h : ∀ c ∈ u, ¬ isSeparator c) : u.map toBackslash = u := by
  have hid : ∀ c ∈ u, toBackslash c = id c := fun c hc => if_neg fun he => h c hc (Or.inl he)
  rw [List.map_congr_left hid, List.map_id]

/-- The replacement changes no place of the name. -/
theorem string_replace_slash {s : Str} {passes : Nat} (h : s.length < passes) :
    string_replace passes s (str "/") (str "\\") = some (s.map toBackslash) := by
  have hslash : str "/" ≠ [] := by decide
  obtain ⟨t, ht, hl⟩ := replaceLoop_replaced (str "\\") hslash passes [] s h
  have hmap : Words.Replaced (str "/") (str "\\") s (s.map toBackslash) :=
    Words.replaced_map slash backslash s
  rw [hmap.unique ht]
  exact hl

theorem find_last_of_none {u : Str} {c : UInt8} (h : c ∉ u) : find_last_of u c = none := by
  simp only [find_last_of, Option.map_eq_none_iff, List.findIdx?_eq_none_iff, List.mem_reverse,
    beq_eq_false_iff_ne]
  rintro x hx rfl
  exact h hx

theorem find_last_of_append (a : Str) {u : Str} {c : UInt8} (h : c ∉ u) :
    find_last_of (a ++ c :: u) c = some a.length := by
  have hnone : u.reverse.findIdx? (· == c) = none := by
    simpa [find_last_of] using find_last_of_none h
  have hrev : (a ++ c :: u).reverse.findIdx? (· == c) = some u.length := by
    simp [List.findIdx?_append, hnone, List.findIdx?_cons]
  unfold find_last_of
  rw [hrev, Option.map_some, Option.some.injEq, List.length_append, List.length_cons]
  omega

/-- The part of a name behind its last separator. -/
theorem extract_filename_append {a u : Str} {c : UInt8} {passes : Nat} (hc : isSeparator c)
    (hu : ∀ x ∈ u, ¬ isSeparator x) (h : (a ++ c :: u).length < passes) :
    extract_filename passes (a ++ c :: u) = some u := by
  have hb : backslash ∉ u := fun hm => hu _ hm (Or.inr rfl)
  have hmap : (a ++ c :: u).map toBackslash = a.map toBackslash ++ backslash :: u := by
    simp only [List.map_append, List.map_cons, toBackslash_separator hc, map_toBackslash hu]
  have hlast := find_last_of_append (a.map toBackslash) hb
  have hdrop : (a.map toBackslash ++ backslash :: u).drop ((a.map toBackslash).length + 1) = u := by
    rw [List.drop_length_add_append, List.drop_one, List.tail_cons]
  unfold extract_filename
  rw [if_neg (by simp), string_replace_slash h, hmap]
  simp only [Option.map_some, hlast, sizeSucc, substr, hdrop]
  rw [List.take_of_length_le]
  simp only [List.length_append, List.length_cons]
  omega

/-- A name without a separator is its own last part. -/
theorem extract_filename_self {u : Str} {passes : Nat} (hu : ∀ x ∈ u, ¬ isSeparator x)
    (h : u.length < passes) : extract_filename passes u = some u := by
  have hb : backslash ∉ u := fun hm => hu _ hm (Or.inr rfl)
  unfold extract_filename
  split
  · rename_i he
    rw [he]
  · rw [string_replace_slash h, map_toBackslash hu]
    simp [find_last_of_none hb, sizeSucc, substr]

/-- For every name, `extract_filename` gives its longest suffix without a
separator. It is a suffix of the name itself, and its own last part. -/
theorem extract_filename_is_the_last_part (strFullName : Str) (passes : Nat)
    (hpasses : strFullName.length < passes) :
    ∃ u, extract_filename passes strFullName = some u ∧ u <:+ strFullName ∧
      (∀ c ∈ u, ¬ isSeparator c) ∧
      (∀ v, v <:+ strFullName → (∀ c ∈ v, ¬ isSeparator c) → v <:+ u) ∧
      extract_filename passes u = some u := by
  rcases Words.last_separator isSeparator strFullName with hu | ⟨a, c, u, rfl, hc, hu⟩
  · have hself := extract_filename_self hu hpasses
    exact ⟨strFullName, hself, List.suffix_refl _, hu, fun v hv _ => hv, hself⟩
  · have hlen : u.length < passes := by
      simp only [List.length_append, List.length_cons] at hpasses
      omega
    refine ⟨u, extract_filename_append hc hu hpasses, ⟨a ++ [c], by simp⟩, hu, ?_,
      extract_filename_self hu hlen⟩
    intro v hv hfree
    exact Words.suffix_of_last_separator hc hv hfree

theorem extract_filename_is_the_last_part_of_mixed :
    ∃ u, extract_filename 20 (str "C:\\a/b\\test.txt") = some u ∧
      u <:+ str "C:\\a/b\\test.txt" ∧ u = str "test.txt" := by
  obtain ⟨u, hu, hs, _⟩ := extract_filename_is_the_last_part (str "C:\\a/b\\test.txt")
    20 (by decide)
  refine ⟨u, hu, hs, ?_⟩
  have he : extract_filename 20 (str "C:\\a/b\\test.txt") = some (str "test.txt") := by decide
  rw [he] at hu
  cases hu
  rfl

end ZookZhubei
