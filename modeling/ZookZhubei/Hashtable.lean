-- The chained hash table of `hashtable.c`, with its iterator. Whatever is put in
-- and taken out, and however often it grows, it is a finite map from keys to
-- values. No allocation fails here.
import Mathlib.Data.List.Perm.Basic
import Mathlib.Data.List.Nodup
import ZookZhubei.Runs

namespace ZookZhubei

open Runs

/-! ## The model -/

def primes : List Nat :=
  [53, 97, 193, 389, 769, 1543, 3079, 6151, 12289, 24593, 49157, 98317, 196613, 393241, 786433,
   1572869, 3145739, 6291469, 12582917, 25165843, 50331653, 100663319, 201326611, 402653189,
   805306457, 1610612741]

/-- `ceil(size * max_load_factor)` for each of the `primes`. The product is a `float`, so
that the last ones are a little off. -/
def loadlimits : List Nat :=
  [35, 64, 126, 253, 500, 1003, 2002, 3999, 7988, 15986, 31953, 63907, 127799, 255607, 511182,
   1022365, 2044731, 4089455, 8178896, 16357798, 32715572, 65431156, 130862288, 261724560,
   523449152, 1046898240]

/-- `struct entry`. A chain is a list of them. -/
structure Entry (κ ν : Type) where
  k : κ
  v : ν
  h : UInt32
deriving DecidableEq, Repr

/-- `struct hashtable`. Its `tablelength` is the length of `table`, and its two functions
never change, so that they are parameters. -/
structure Hashtable (κ ν : Type) where
  table : List (List (Entry κ ν))
  entrycount : Nat
  loadlimit : Nat
  primeindex : Nat
deriving DecidableEq, Repr

section
variable {κ ν : Type} [DecidableEq κ] (hashfn : κ → UInt32)

def create_hashtable (minsize : Nat) : Option (Hashtable κ ν) :=
  if 1 <<< 30 < minsize then none
  else
    let pindex := primes.findIdx fun p => minsize < p
    some { table := List.replicate (primes.getD pindex 53) [], entrycount := 0,
           loadlimit := loadlimits.getD pindex 35, primeindex := pindex }

/-- `hash`: the hash of the key, mixed. -/
def Hashtable.hash (k : κ) : UInt32 :=
  let i := hashfn k
  let i := i + ~~~(i <<< 9)
  let i := i ^^^ ((i >>> 14) ||| (i <<< 18))
  let i := i + (i <<< 4)
  i ^^^ ((i >>> 10) ||| (i <<< 22))

def indexFor (tablelength : Nat) (hashvalue : UInt32) : Nat := hashvalue.toNat % tablelength

/-- `table[i]`. -/
def chainAt (table : List (List (Entry κ ν))) (i : Nat) : List (Entry κ ν) := table.getD i []

/-- An entry becomes the head of its chain. -/
def pushEntry (table : List (List (Entry κ ν))) (e : Entry κ ν) : List (List (Entry κ ν)) :=
  let index := indexFor table.length e.h
  table.set index (e :: chainAt table index)

/-- The entries go over one by one, so that a chain is reversed. -/
def hashtable_expand (h : Hashtable κ ν) : Hashtable κ ν :=
  if h.primeindex + 1 = primes.length then h
  else
    let primeindex := h.primeindex + 1
    { table := h.table.foldl (fun newtable chain => chain.foldl pushEntry newtable)
        (List.replicate (primes.getD primeindex 0) [])
      entrycount := h.entrycount, loadlimit := loadlimits.getD primeindex 0, primeindex }

def hashtable_insert (h : Hashtable κ ν) (k : κ) (v : ν) : Hashtable κ ν :=
  let h := { h with entrycount := h.entrycount + 1 }
  let h := if h.loadlimit < h.entrycount then hashtable_expand h else h
  { h with table := pushEntry h.table { k, v, h := Hashtable.hash hashfn k } }

/-- The test of a search. It compares the hash values first. -/
def isEntry (k : κ) (e : Entry κ ν) : Bool := Hashtable.hash hashfn k == e.h && decide (k = e.k)

/-- The bucket of a key. -/
def Hashtable.indexOf (h : Hashtable κ ν) (k : κ) : Nat :=
  indexFor h.table.length (Hashtable.hash hashfn k)

/-- The chain that a search goes through. -/
def Hashtable.chainOf (h : Hashtable κ ν) (k : κ) : List (Entry κ ν) :=
  chainAt h.table (h.indexOf hashfn k)

def hashtable_search (h : Hashtable κ ν) (k : κ) : Option ν :=
  ((h.chainOf hashfn k).find? (isEntry hashfn k)).map Entry.v

def hashtable_remove (h : Hashtable κ ν) (k : κ) : Option ν × Hashtable κ ν :=
  match (h.chainOf hashfn k).find? (isEntry hashfn k) with
  | none => (none, h)
  | some e =>
    let chain := (h.chainOf hashfn k).eraseP (isEntry hashfn k)
    (some e.v, { h with table := h.table.set (h.indexOf hashfn k) chain,
                        entrycount := h.entrycount - 1 })

/-- A write through the pointer that a search gave: the entry stays and its value is
another one. -/
def hashtable_write (h : Hashtable κ ν) (k : κ) (v : ν) : Hashtable κ ν :=
  let chain := (h.chainOf hashfn k).replaceF fun e =>
    if isEntry hashfn k e then some { e with v } else none
  { h with table := h.table.set (h.indexOf hashfn k) chain }

end

/-! ## The iterator -/

section
variable {κ ν : Type}

/-- `struct hashtable_itr`: the bucket, and its chain from the current entry on. A null
entry is an empty chain. -/
structure Itr (κ ν : Type) where
  index : Nat
  chain : List (Entry κ ν)
deriving DecidableEq, Repr

/-- The loop to the next bucket that has a chain, from the bucket `j` on. -/
def nextChain : List (List (Entry κ ν)) → Nat → Itr κ ν
  | [], j => { index := j, chain := [] }
  | [] :: buckets, j => nextChain buckets (j + 1)
  | (e :: chain) :: _, j => { index := j, chain := e :: chain }

def hashtable_iterator (h : Hashtable κ ν) : Itr κ ν :=
  if h.entrycount = 0 then { index := h.table.length, chain := [] } else nextChain h.table 0

/-- It returns 0 when the chain it leaves is empty. -/
def hashtable_iterator_advance (h : Hashtable κ ν) (itr : Itr κ ν) : Itr κ ν :=
  match itr.chain with
  | [] => itr
  | [_] => nextChain (h.table.drop (itr.index + 1)) (itr.index + 1)
  | _ :: next :: chain => { itr with chain := next :: chain }

/-- The entries that the iterator has before it. -/
def Itr.ahead (h : Hashtable κ ν) (itr : Itr κ ν) : List (Entry κ ν) :=
  itr.chain ++ (h.table.drop (itr.index + 1)).flatten

theorem nextChain_ahead (buckets : List (List (Entry κ ν))) (j : Nat) :
    (nextChain buckets j).chain ++ (buckets.drop ((nextChain buckets j).index + 1 - j)).flatten =
      buckets.flatten ∧ j ≤ (nextChain buckets j).index := by
  induction buckets generalizing j with
  | nil => simp [nextChain]
  | cons c buckets ih =>
    cases c with
    | nil =>
      obtain ⟨h1, h2⟩ := ih (j + 1)
      have hsub : (nextChain buckets (j + 1)).index + 1 - j =
          ((nextChain buckets (j + 1)).index + 1 - (j + 1)) + 1 := by omega
      refine ⟨?_, by simp only [nextChain]; omega⟩
      simp only [nextChain, hsub, List.drop_succ_cons, h1, List.flatten_cons, List.nil_append]
    | cons e c => simp [nextChain]

theorem ahead_nextChain (h : Hashtable κ ν) (j : Nat) :
    (nextChain (h.table.drop j) j).ahead h = (h.table.drop j).flatten := by
  obtain ⟨h1, h2⟩ := nextChain_ahead (h.table.drop j) j
  have hadd : j + ((nextChain (h.table.drop j) j).index + 1 - j) =
      (nextChain (h.table.drop j) j).index + 1 := by omega
  rw [List.drop_drop, hadd] at h1
  exact h1

/-- Where the iterator is empty there is nothing ahead. -/
theorem chain_nextChain_ne_nil {buckets : List (List (Entry κ ν))} (h : buckets.flatten ≠ [])
    (j : Nat) : (nextChain buckets j).chain ≠ [] := by
  induction buckets generalizing j with
  | nil => exact absurd rfl h
  | cons c buckets ih =>
    cases c with
    | nil => exact ih (by simpa using h) (j + 1)
    | cons e c => simp [nextChain]

theorem ahead_advance {h : Hashtable κ ν} {itr : Itr κ ν} (hne : itr.chain ≠ []) :
    (hashtable_iterator_advance h itr).ahead h = (itr.ahead h).tail := by
  obtain ⟨index, chain⟩ := itr
  match chain with
  | [] => exact absurd rfl hne
  | [e] => exact ahead_nextChain h (index + 1)
  | e :: next :: chain => rfl

/-- It stops only where nothing is left. -/
theorem chain_advance_ne_nil {h : Hashtable κ ν} {itr : Itr κ ν} (hc : itr.chain ≠ [])
    (hne : (itr.ahead h).tail ≠ []) : (hashtable_iterator_advance h itr).chain ≠ [] := by
  obtain ⟨index, chain⟩ := itr
  match chain with
  | [] => exact absurd rfl hc
  | [e] => exact chain_nextChain_ne_nil hne (index + 1)
  | e :: next :: chain => simp [hashtable_iterator_advance]

theorem head_of_chain {h : Hashtable κ ν} {itr : Itr κ ν} {e : Entry κ ν}
    {chain : List (Entry κ ν)} (hc : itr.chain = e :: chain) :
    itr.ahead h = e :: (itr.ahead h).tail := by
  simp [Itr.ahead, hc]

/-- The loop of `collect_keys`. A key of a null entry is not there to be copied. -/
def collectKeys (h : Hashtable κ ν) : Nat → Itr κ ν → Option (List κ)
  | 0, _ => some []
  | n + 1, itr => do
    let e ← itr.chain.head?
    return e.k :: (← collectKeys h n (hashtable_iterator_advance h itr))

def collect_keys (h : Hashtable κ ν) : Option (List κ) :=
  collectKeys h h.entrycount (hashtable_iterator h)

/-- The loop that goes over all entries of a table, until the iterator is at its end. -/
def visit (h : Hashtable κ ν) (itr : Itr κ ν) : List (Entry κ ν) :=
  match _hc : itr.chain with
  | [] => []
  | e :: _ => e :: visit h (hashtable_iterator_advance h itr)
termination_by (itr.ahead h).length
decreasing_by
  have hne : itr.chain ≠ [] := by simp [_hc]
  rw [ahead_advance hne, head_of_chain _hc]
  simp

theorem collectKeys_eq (h : Hashtable κ ν) (n : Nat) (itr : Itr κ ν)
    (hlen : (itr.ahead h).length = n) (hne : itr.ahead h ≠ [] → itr.chain ≠ []) :
    collectKeys h n itr = some ((itr.ahead h).map Entry.k) := by
  induction n generalizing itr with
  | zero =>
    rw [List.length_eq_zero_iff.mp hlen]
    rfl
  | succ n ih =>
    have hc : itr.chain ≠ [] := hne (List.ne_nil_of_length_eq_add_one hlen)
    obtain ⟨e, chain, hchain⟩ := List.exists_cons_of_ne_nil hc
    have hahead := head_of_chain (h := h) hchain
    have hnext := ih (hashtable_iterator_advance h itr) (by rw [ahead_advance hc]; simp [hlen])
      (by rw [ahead_advance hc]; exact chain_advance_ne_nil hc)
    rw [ahead_advance hc] at hnext
    simp only [collectKeys, hchain, List.head?_cons, hnext, Option.bind_eq_bind, Option.bind_some]
    rw [hahead]
    rfl

theorem visit_eq (h : Hashtable κ ν) (itr : Itr κ ν) (hne : itr.ahead h ≠ [] → itr.chain ≠ []) :
    visit h itr = itr.ahead h := by
  fun_induction visit h itr with
  | case1 itr hc =>
    by_contra hcon
    exact hne (fun h0 => hcon h0.symm) hc
  | case2 itr e chain hc ih =>
    have hc' : itr.chain ≠ [] := by simp [hc]
    rw [ahead_advance hc'] at ih
    rw [ih (chain_advance_ne_nil hc'), ← head_of_chain hc]

/-- A new iterator has the whole table ahead. -/
theorem ahead_iterator {h : Hashtable κ ν} (hcount : h.entrycount = h.table.flatten.length) :
    (hashtable_iterator h).ahead h = h.table.flatten ∧
      (h.table.flatten ≠ [] → (hashtable_iterator h).chain ≠ []) := by
  unfold hashtable_iterator
  split
  · rename_i h0
    have hnil : h.table.flatten = [] := List.length_eq_zero_iff.mp (hcount ▸ h0)
    refine ⟨?_, fun hne => absurd hnil hne⟩
    unfold Itr.ahead
    rw [List.drop_eq_nil_of_le (by simp), hnil]
    rfl
  · exact ⟨by simpa using ahead_nextChain h 0, fun hne => chain_nextChain_ne_nil hne 0⟩

theorem collect_keys_eq {h : Hashtable κ ν} (hcount : h.entrycount = h.table.flatten.length) :
    collect_keys h = some (h.table.flatten.map Entry.k) := by
  obtain ⟨h1, h2⟩ := ahead_iterator hcount
  have hkeys := collectKeys_eq h h.entrycount (hashtable_iterator h) (by rw [h1, hcount])
    (by rw [h1]; exact h2)
  rwa [h1] at hkeys

theorem visit_iterator {h : Hashtable κ ν} (hcount : h.entrycount = h.table.flatten.length) :
    visit h (hashtable_iterator h) = h.table.flatten := by
  obtain ⟨h1, h2⟩ := ahead_iterator hcount
  rw [visit_eq h _ (by rw [h1]; exact h2), h1]

end

/-! ## Bindings -/

section
variable {κ ν : Type}

/-- The entries bind each key at most once, and as `m` does. -/
structure Binds (es : List (Entry κ ν)) (m : κ → Option ν) : Prop where
  nodup : (es.map Entry.k).Nodup
  iff : ∀ k v, m k = some v ↔ ∃ e ∈ es, e.k = k ∧ e.v = v

theorem Binds.nil : Binds ([] : List (Entry κ ν)) fun _ => none :=
  ⟨List.nodup_nil, by simp⟩

theorem Binds.perm {es es' : List (Entry κ ν)} {m : κ → Option ν} (h : Binds es m)
    (hp : es.Perm es') : Binds es' m :=
  ⟨(hp.map Entry.k).nodup_iff.mp h.nodup, fun k v => by simp only [h.iff, hp.mem_iff]⟩

theorem Binds.none_iff {es : List (Entry κ ν)} {m : κ → Option ν} (h : Binds es m) (k : κ) :
    m k = none ↔ k ∉ es.map Entry.k := by
  rw [Option.eq_none_iff_forall_ne_some]
  constructor
  · intro hn hk
    obtain ⟨e, he, rfl⟩ := List.mem_map.mp hk
    exact hn e.v ((h.iff _ _).mpr ⟨e, he, rfl, rfl⟩)
  · intro hk v hv
    obtain ⟨e, he, rfl, rfl⟩ := (h.iff _ _).mp hv
    exact hk (List.mem_map_of_mem he)

theorem Binds.cons [DecidableEq κ] {es : List (Entry κ ν)} {m : κ → Option ν} (h : Binds es m) {e : Entry κ ν}
    (hn : m e.k = none) : Binds (e :: es) (Function.update m e.k (some e.v)) := by
  have hk := (h.none_iff e.k).mp hn
  refine ⟨List.nodup_cons.mpr ⟨hk, h.nodup⟩, fun k v => ?_⟩
  simp only [List.mem_cons, exists_eq_or_imp]
  by_cases hkk : k = e.k
  · subst hkk
    rw [Function.update_self]
    constructor
    · intro hv
      exact .inl ⟨rfl, Option.some.inj hv⟩
    · rintro (⟨-, rfl⟩ | ⟨e', he', heq, -⟩)
      · rfl
      · exact absurd (heq ▸ List.mem_map_of_mem he') hk
  · rw [Function.update_of_ne hkk, h.iff]
    constructor
    · exact .inr
    · rintro (⟨rfl, -⟩ | he')
      · exact absurd rfl hkk
      · exact he'

theorem Binds.tail [DecidableEq κ] {es : List (Entry κ ν)} {m : κ → Option ν} {e : Entry κ ν}
    (h : Binds (e :: es) m) : Binds es (Function.update m e.k none) := by
  obtain ⟨hk, hnd⟩ := List.nodup_cons.mp h.nodup
  refine ⟨hnd, fun k v => ?_⟩
  by_cases hkk : k = e.k
  · subst hkk
    rw [Function.update_self]
    constructor
    · intro hv
      cases hv
    · rintro ⟨e', he', heq, -⟩
      exact absurd (heq ▸ List.mem_map_of_mem he') hk
  · rw [Function.update_of_ne hkk, h.iff]
    simp only [List.mem_cons, exists_eq_or_imp]
    constructor
    · rintro (⟨rfl, -⟩ | he')
      · exact absurd rfl hkk
      · exact he'
    · exact .inr

end

/-! ## Chains -/

/-- A list of lists, with one of them taken out. -/
theorem flatten_set {α : Type} {t : List (List α)} {i : Nat} {c : List α} (h : t[i]? = some c) :
    ∃ rest, t.flatten.Perm (c ++ rest) ∧ ∀ c', (t.set i c').flatten.Perm (c' ++ rest) := by
  induction t generalizing i with
  | nil => simp at h
  | cons a t ih =>
    cases i with
    | zero =>
      simp only [List.getElem?_cons_zero, Option.some.injEq] at h
      subst h
      exact ⟨t.flatten, .refl _, fun c' => .refl _⟩
    | succ i =>
      obtain ⟨rest, h1, h2⟩ := ih (by simpa using h)
      refine ⟨a ++ rest, ?_, fun c' => ?_⟩
      · exact (h1.append_left a).trans (List.perm_append_comm_assoc _ _ _)
      · exact ((h2 c').append_left a).trans (List.perm_append_comm_assoc _ _ _)

theorem perm_eraseP {α : Type} {c : List α} {p : α → Bool} {a : α} (h : c.find? p = some a) :
    c.Perm (a :: c.eraseP p) := by
  induction c with
  | nil => cases h
  | cons b c ih =>
    by_cases hb : p b = true
    · simp only [List.find?_cons_of_pos hb, Option.some.injEq] at h
      rw [List.eraseP_cons_of_pos hb, h]
    · rw [List.find?_cons_of_neg hb] at h
      rw [List.eraseP_cons_of_neg hb]
      exact ((ih h).cons b).trans (.swap a b _)

theorem perm_replaceF {α : Type} {c : List α} {p : α → Bool} {a : α} (h : c.find? p = some a)
    (f : α → α) :
    (c.replaceF fun x => if p x then some (f x) else none).Perm (f a :: c.eraseP p) := by
  induction c with
  | nil => cases h
  | cons b c ih =>
    by_cases hb : p b = true
    · simp only [List.find?_cons_of_pos hb, Option.some.injEq] at h
      subst h
      rw [List.eraseP_cons_of_pos hb, List.replaceF_cons_of_some _ (by rw [if_pos hb])]
    · rw [List.find?_cons_of_neg hb] at h
      rw [List.eraseP_cons_of_neg hb, List.replaceF_cons_of_none _ (by rw [if_neg hb])]
      exact ((ih h).cons b).trans (.swap (f a) b _)

section
variable {κ ν : Type} {hashfn : κ → UInt32}

/-- Each entry keeps its hash and is in the bucket of it. -/
def Placed (hashfn : κ → UInt32) (t : List (List (Entry κ ν))) : Prop :=
  ∀ i c, t[i]? = some c → ∀ e ∈ c, e.h = Hashtable.hash hashfn e.k ∧ indexFor t.length e.h = i

theorem getElem?_chainAt {t : List (List (Entry κ ν))} {i : Nat} (hi : i < t.length) :
    t[i]? = some (chainAt t i) := by
  simp [chainAt, List.getD_eq_getElem?_getD, hi]

theorem indexFor_lt {n : Nat} (hn : 0 < n) (hashvalue : UInt32) : indexFor n hashvalue < n :=
  Nat.mod_lt _ hn

theorem placed_set {t : List (List (Entry κ ν))} (h : Placed hashfn t) {i : Nat}
    {c' : List (Entry κ ν)}
    (hc : ∀ e ∈ c', e.h = Hashtable.hash hashfn e.k ∧ indexFor t.length e.h = i) :
    Placed hashfn (t.set i c') := by
  intro j c hj e he
  rw [List.length_set]
  rw [List.getElem?_set] at hj
  split at hj
  · rename_i hij
    split at hj
    · cases hj
      subst hij
      exact hc e he
    · cases hj
  · exact h j c hj e he

theorem placed_chainAt {t : List (List (Entry κ ν))} (h : Placed hashfn t) {i : Nat}
    (hi : i < t.length) {e : Entry κ ν} (he : e ∈ chainAt t i) :
    e.h = Hashtable.hash hashfn e.k ∧ indexFor t.length e.h = i :=
  h i _ (getElem?_chainAt hi) e he

@[simp] theorem length_pushEntry (t : List (List (Entry κ ν))) (e : Entry κ ν) :
    (pushEntry t e).length = t.length := List.length_set

theorem placed_pushEntry {t : List (List (Entry κ ν))} (h : Placed hashfn t) (hn : 0 < t.length)
    {e : Entry κ ν} (he : e.h = Hashtable.hash hashfn e.k) : Placed hashfn (pushEntry t e) := by
  refine placed_set h fun e' he' => ?_
  rcases List.mem_cons.mp he' with rfl | he'
  · exact ⟨he, rfl⟩
  · exact placed_chainAt h (indexFor_lt hn _) he'

theorem perm_pushEntry {t : List (List (Entry κ ν))} (hn : 0 < t.length) (e : Entry κ ν) :
    (pushEntry t e).flatten.Perm (e :: t.flatten) := by
  obtain ⟨rest, h1, h2⟩ := flatten_set (getElem?_chainAt (indexFor_lt hn e.h))
  exact (h2 _).trans ((h1.cons e).symm)

/-- The entries of a list go into a table one after the other. -/
theorem foldl_pushEntry {es : List (Entry κ ν)} (hes : ∀ e ∈ es, e.h = Hashtable.hash hashfn e.k)
    {t : List (List (Entry κ ν))} (h : Placed hashfn t) (hn : 0 < t.length) :
    (es.foldl pushEntry t).length = t.length ∧ Placed hashfn (es.foldl pushEntry t) ∧
      (es.foldl pushEntry t).flatten.Perm (es ++ t.flatten) := by
  induction es generalizing t with
  | nil => exact ⟨rfl, h, .refl _⟩
  | cons e es ih =>
    have hlen := length_pushEntry t e
    obtain ⟨h1, h2, h3⟩ := ih (fun e' he' => hes e' (by simp [he']))
      (placed_pushEntry h hn (hes e (by simp))) (hlen ▸ hn)
    refine ⟨h1.trans hlen, h2, h3.trans ?_⟩
    exact ((perm_pushEntry hn e).append_left es).trans List.perm_middle

end

/-! ## The table -/

section
variable {κ ν : Type} {hashfn : κ → UInt32}

/-- The sizes of a table, and its entries in their places. -/
structure Hashtable.Built (hashfn : κ → UInt32) (h : Hashtable κ ν) : Prop where
  index : h.primeindex < primes.length
  size : h.table.length = primes.getD h.primeindex 0
  limit : h.loadlimit = loadlimits.getD h.primeindex 0
  placed : Placed hashfn h.table

theorem primes_pos : ∀ i < primes.length, 0 < primes.getD i 0 := by decide

/-- The limit of the next size has room for one entry more. -/
theorem loadlimits_lt : ∀ i < primes.length - 1,
    loadlimits.getD i 0 + 1 ≤ loadlimits.getD (i + 1) 0 := by decide

theorem Hashtable.Built.length_pos {h : Hashtable κ ν} (hb : h.Built hashfn) :
    0 < h.table.length := by
  rw [hb.size]
  exact primes_pos _ hb.index

/-- The table is half empty, or cannot grow any more. -/
def Hashtable.Loaded (h : Hashtable κ ν) : Prop :=
  h.entrycount ≤ h.loadlimit ∨ h.primeindex + 1 = primes.length

theorem placed_replicate (n : Nat) : Placed hashfn (List.replicate n ([] : List (Entry κ ν))) := by
  intro i c hc e he
  rw [List.eq_of_mem_replicate (List.mem_of_getElem? hc)] at he
  simp at he

/-- What a table holds after it has grown. -/
theorem hashtable_expand_spec {h : Hashtable κ ν} (hb : h.Built hashfn)
    (hle : h.entrycount ≤ h.loadlimit + 1 ∨ h.primeindex + 1 = primes.length) :
    (hashtable_expand h).Built hashfn ∧ (hashtable_expand h).Loaded ∧
      (hashtable_expand h).entrycount = h.entrycount ∧
      (hashtable_expand h).table.flatten.Perm h.table.flatten := by
  unfold hashtable_expand
  split
  · rename_i hlast
    exact ⟨hb, .inr hlast, rfl, .refl _⟩
  · rename_i hmore
    have hlt : h.primeindex + 1 < primes.length := by
      have := hb.index
      omega
    have hpos := primes_pos _ hlt
    have hashed : ∀ e ∈ h.table.flatten, e.h = Hashtable.hash hashfn e.k := by
      intro e he
      obtain ⟨c, hc, he⟩ := List.mem_flatten.mp he
      obtain ⟨i, hi, rfl⟩ := List.getElem_of_mem hc
      exact (hb.placed i _ (List.getElem?_eq_getElem hi) e he).1
    have hnew : 0 < (List.replicate (primes.getD (h.primeindex + 1) 0)
        ([] : List (Entry κ ν))).length := by
      rw [List.length_replicate]
      exact hpos
    obtain ⟨h1, h2, h3⟩ := foldl_pushEntry hashed (placed_replicate _) hnew
    rw [List.foldl_flatten] at h1 h2 h3
    refine ⟨⟨hlt, ?_, rfl, h2⟩, .inl ?_, rfl, ?_⟩
    · rw [h1, List.length_replicate]
    · have := loadlimits_lt h.primeindex (by omega)
      have hfit := hle.resolve_right hmore
      rw [hb.limit] at hfit
      simp only
      omega
    · simpa using h3

/-- A table that holds the bindings of `m`. -/
structure Hashtable.Sound (hashfn : κ → UInt32) (h : Hashtable κ ν) (m : κ → Option ν) : Prop where
  built : h.Built hashfn
  loaded : h.Loaded
  count : h.entrycount = h.table.flatten.length
  binds : Binds h.table.flatten m

theorem sound_create_hashtable {minsize : Nat} {h : Hashtable κ ν}
    (hc : create_hashtable minsize = some h) : h.Sound hashfn fun _ => none := by
  unfold create_hashtable at hc
  split at hc
  · cases hc
  · rename_i hle
    cases hc
    have hfound : primes.findIdx (fun p => minsize < p) < primes.length := by
      rw [List.findIdx_lt_length]
      exact ⟨1610612741, by decide, by simp; omega⟩
    have hget : ∀ i < primes.length, primes.getD i 53 = primes.getD i 0 ∧
        loadlimits.getD i 35 = loadlimits.getD i 0 := by decide
    refine ⟨⟨hfound, ?_, ?_, placed_replicate _⟩, .inl (Nat.zero_le _), ?_, ?_⟩
    · simp only [List.length_replicate]
      exact (hget _ hfound).1
    · exact (hget _ hfound).2
    · simp
    · simpa using Binds.nil

variable {h : Hashtable κ ν} {m : κ → Option ν}

/-- The new entry, behind the growth of the table. -/
theorem hashtable_insert_spec (hs : h.Sound hashfn m) (k : κ) (v : ν) :
    (hashtable_insert hashfn h k v).Built hashfn ∧ (hashtable_insert hashfn h k v).Loaded ∧
      (hashtable_insert hashfn h k v).entrycount = h.entrycount + 1 ∧
      (hashtable_insert hashfn h k v).table.flatten.Perm
        ({ k, v, h := Hashtable.hash hashfn k } :: h.table.flatten) := by
  obtain ⟨built, loaded, -, -⟩ := hs
  have hgrown : ∃ g : Hashtable κ ν, hashtable_insert hashfn h k v =
        { g with table := pushEntry g.table { k, v, h := Hashtable.hash hashfn k } } ∧
      g.Built hashfn ∧ g.Loaded ∧ g.entrycount = h.entrycount + 1 ∧
      g.table.flatten.Perm h.table.flatten := by
    refine ⟨_, rfl, ?_⟩
    have hb : Hashtable.Built hashfn { h with entrycount := h.entrycount + 1 } :=
      ⟨built.index, built.size, built.limit, built.placed⟩
    simp only
    split
    · exact hashtable_expand_spec hb (loaded.imp_left fun hle => by simp only; omega)
    · rename_i hle
      exact ⟨hb, .inl (Nat.not_lt.mp hle), rfl, .refl _⟩
  obtain ⟨g, heq, hb, hl, hc, hp⟩ := hgrown
  rw [heq]
  refine ⟨⟨hb.index, ?_, hb.limit, ?_⟩, hl, hc, ?_⟩
  · simpa using hb.size
  · exact placed_pushEntry hb.placed hb.length_pos rfl
  · exact (perm_pushEntry hb.length_pos _).trans (hp.cons _)

theorem sound_insert [DecidableEq κ] (hs : h.Sound hashfn m) {k : κ} (hn : m k = none) (v : ν) :
    (hashtable_insert hashfn h k v).Sound hashfn (Function.update m k (some v)) := by
  obtain ⟨hb, hl, hc, hp⟩ := hashtable_insert_spec hs k v
  refine ⟨hb, hl, ?_, ?_⟩
  · rw [hc, hp.length_eq, hs.count]
    rfl
  · exact (hs.binds.cons (e := { k, v, h := Hashtable.hash hashfn k }) hn).perm hp.symm

theorem Hashtable.Sound.indexOf_lt (hs : h.Sound hashfn m) (k : κ) :
    h.indexOf hashfn k < h.table.length :=
  indexFor_lt hs.built.length_pos _

/-- An entry is in the chain of its key. -/
theorem mem_chainOf (hs : h.Sound hashfn m) {e : Entry κ ν} :
    e ∈ h.chainOf hashfn e.k ↔ e ∈ h.table.flatten := by
  have hlt := hs.indexOf_lt e.k
  constructor
  · intro he
    exact List.mem_flatten.mpr ⟨_, List.mem_of_getElem? (getElem?_chainAt hlt), he⟩
  · intro he
    obtain ⟨c, hc, he⟩ := List.mem_flatten.mp he
    obtain ⟨i, hi⟩ := List.getElem?_of_mem hc
    obtain ⟨h1, h2⟩ := hs.built.placed i c hi e he
    unfold Hashtable.chainOf Hashtable.indexOf
    rw [← h1, h2]
    have hi' : i < h.table.length := (List.getElem?_eq_some_iff.mp hi).1
    rw [getElem?_chainAt hi'] at hi
    cases hi
    exact he

theorem placed_set_chainOf (hs : h.Sound hashfn m) {k : κ} {c : List (Entry κ ν)}
    (hc : ∀ e ∈ c, e ∈ h.chainOf hashfn k ∨ (e.h = Hashtable.hash hashfn k ∧ e.k = k)) :
    Placed hashfn (h.table.set (h.indexOf hashfn k) c) := by
  refine placed_set hs.built.placed fun e he => ?_
  rcases hc e he with hin | ⟨h1, rfl⟩
  · exact placed_chainAt hs.built.placed (hs.indexOf_lt k) hin
  · exact ⟨h1, by rw [h1]; rfl⟩

variable [DecidableEq κ]

theorem isEntry_iff (hs : h.Sound hashfn m) {k : κ} {e : Entry κ ν}
    (he : e ∈ h.chainOf hashfn k) : isEntry hashfn k e = true ↔ e.k = k := by
  have hplaced := placed_chainAt hs.built.placed (hs.indexOf_lt k) he
  unfold isEntry
  simp only [Bool.and_eq_true, beq_iff_eq, decide_eq_true_eq]
  constructor
  · exact fun hk => hk.2.symm
  · rintro rfl
    exact ⟨hplaced.1.symm, rfl⟩

theorem hashtable_search_eq (hs : h.Sound hashfn m) (k : κ) : hashtable_search hashfn h k = m k := by
  unfold hashtable_search
  cases hf : (h.chainOf hashfn k).find? (isEntry hashfn k) with
  | none =>
    rw [List.find?_eq_none] at hf
    refine ((hs.binds.none_iff k).mpr fun hk => ?_).symm
    obtain ⟨e, he, rfl⟩ := List.mem_map.mp hk
    have hc := (mem_chainOf hs).mpr he
    exact hf e hc ((isEntry_iff hs hc).mpr rfl)
  | some e =>
    have hc := List.mem_of_find?_eq_some hf
    have hk := (isEntry_iff hs hc).mp (List.find?_some hf)
    subst hk
    exact ((hs.binds.iff _ _).mpr ⟨e, (mem_chainOf hs).mp hc, rfl, rfl⟩).symm

/-- The chain of a key that is found, with that entry taken out or with others in its
place. -/
theorem flatten_set_chainOf (hs : h.Sound hashfn m) {k : κ} {e : Entry κ ν}
    (hf : (h.chainOf hashfn k).find? (isEntry hashfn k) = some e) :
    ∃ rest, h.table.flatten.Perm (e :: rest) ∧
      ∀ c d, c.Perm (d ++ (h.chainOf hashfn k).eraseP (isEntry hashfn k)) →
        (h.table.set (h.indexOf hashfn k) c).flatten.Perm (d ++ rest) := by
  obtain ⟨rest, h1, h2⟩ := flatten_set (getElem?_chainAt (hs.indexOf_lt k))
  refine ⟨(h.chainOf hashfn k).eraseP (isEntry hashfn k) ++ rest, ?_, fun c d hc => ?_⟩
  · exact h1.trans ((perm_eraseP hf).append_right rest)
  · rw [← List.append_assoc]
    exact (h2 c).trans (hc.append_right rest)

theorem hashtable_remove_spec (hs : h.Sound hashfn m) (k : κ) :
    (hashtable_remove hashfn h k).1 = m k ∧
      (hashtable_remove hashfn h k).2.Sound hashfn (Function.update m k none) := by
  have hsearch := hashtable_search_eq hs k
  unfold hashtable_search at hsearch
  unfold hashtable_remove
  split
  · rename_i hf
    rw [hf] at hsearch
    have hsearch : m k = none := hsearch.symm
    refine ⟨hsearch.symm, ?_⟩
    rwa [Function.update_eq_self_iff.mpr hsearch.symm]
  · rename_i e hf
    rw [hf] at hsearch
    obtain ⟨rest, h1, h2⟩ := flatten_set_chainOf hs hf
    have hp := h2 _ [] (.refl _)
    have hk := (isEntry_iff hs (List.mem_of_find?_eq_some hf)).mp (List.find?_some hf)
    have hcount := hs.count
    have hlen := h1.length_eq
    refine ⟨hsearch, ⟨hs.built.index, ?_, hs.built.limit, ?_⟩, ?_, ?_, ?_⟩
    · simpa using hs.built.size
    · exact placed_set_chainOf hs fun e he => .inl (List.eraseP_subset he)
    · exact hs.loaded.imp_left fun hle => by simp only; omega
    · have hless := hp.length_eq
      simp only [List.nil_append, List.length_cons] at hless hlen ⊢
      omega
    · subst hk
      exact (hs.binds.perm h1).tail.perm hp.symm

/-- A write finds its entry again and leaves the others as they are. -/
theorem sound_write (hs : h.Sound hashfn m) {k : κ} (hk : m k ≠ none) (v : ν) :
    (hashtable_write hashfn h k v).Sound hashfn (Function.update m k (some v)) := by
  have hsearch := hashtable_search_eq hs k
  unfold hashtable_search at hsearch
  cases hf : (h.chainOf hashfn k).find? (isEntry hashfn k) with
  | none =>
    rw [hf] at hsearch
    exact absurd hsearch.symm hk
  | some e =>
    obtain ⟨rest, h1, h2⟩ := flatten_set_chainOf hs hf
    have hnew := perm_replaceF hf fun e : Entry κ ν => { e with v }
    have hp := h2 _ [{ e with v }] hnew
    have hin := List.mem_of_find?_eq_some hf
    have hkey := (isEntry_iff hs hin).mp (List.find?_some hf)
    have hplaced := placed_chainAt hs.built.placed (hs.indexOf_lt k) hin
    refine ⟨⟨hs.built.index, ?_, hs.built.limit, ?_⟩, hs.loaded, ?_, ?_⟩
    · simpa [hashtable_write] using hs.built.size
    · refine placed_set_chainOf hs fun e' he' => ?_
      rcases List.mem_cons.mp (hnew.mem_iff.mp he') with rfl | hin'
      · exact .inr ⟨by rw [← hkey]; exact hplaced.1, hkey⟩
      · exact .inl (List.eraseP_subset hin')
    · exact hs.count.trans (h1.length_eq.trans hp.length_eq.symm)
    · subst hkey
      have hbinds := (hs.binds.perm h1).tail.cons (e := { e with v }) (Function.update_self ..)
      rw [Function.update_idem] at hbinds
      exact hbinds.perm hp.symm

end

/-! ## Every run -/

section
variable {κ ν : Type} [DecidableEq κ]

/-- A table, and the map that it stands for. -/
structure Tabled (κ ν : Type) where
  h : Hashtable κ ν
  map : κ → Option ν

inductive TableAct (κ ν : Type)
  | insert (k : κ) (v : ν)
  | remove (k : κ)
  /-- Another value for a key that was found. -/
  | write (k : κ) (v : ν)

def Tabled.step (hashfn : κ → UInt32) (s : Tabled κ ν) : TableAct κ ν → Option (Tabled κ ν)
  | .insert k v =>
    some { h := hashtable_insert hashfn s.h k v, map := Function.update s.map k (some v) }
  | .remove k =>
    some { h := (hashtable_remove hashfn s.h k).2, map := Function.update s.map k none }
  | .write k v =>
    match hashtable_search hashfn s.h k with
    | none => none
    | some _ => some { h := hashtable_write hashfn s.h k v, map := Function.update s.map k (some v) }

def tables (hashfn : κ → UInt32) : System (Tabled κ ν) (TableAct κ ν) :=
  { start := fun s => (∃ minsize, create_hashtable minsize = some s.h) ∧ s.map = fun _ => none
    step := Tabled.step hashfn }

/-- Duplicate keys are allowed but should not be used. -/
def freshKeys (hashfn : κ → UInt32) (s : Tabled κ ν) : TableAct κ ν → Prop
  | .insert k _ => hashtable_search hashfn s.h k = none
  | _ => True

instance [DecidableEq ν] (hashfn : κ → UInt32) (s : Tabled κ ν) :
    (a : TableAct κ ν) → Decidable (freshKeys hashfn s a)
  | .insert k _ => inferInstanceAs (Decidable (hashtable_search hashfn s.h k = none))
  | .remove _ => .isTrue trivial
  | .write _ _ => .isTrue trivial

theorem Tabled.sound_of_reach {hashfn : κ → UInt32} {s : Tabled κ ν}
    (h : (tables hashfn).ReachBy (freshKeys hashfn) s) : s.h.Sound hashfn s.map := by
  refine System.ReachBy.invariant (P := fun s : Tabled κ ν => s.h.Sound hashfn s.map) ?_ ?_ h
  · rintro ⟨h, _⟩ ⟨⟨minsize, hc⟩, rfl⟩
    exact sound_create_hashtable hc
  · intro s a s' hs hg hst
    cases a with
    | insert k v =>
      cases hst
      exact sound_insert hs ((hashtable_search_eq hs k).symm.trans hg) v
    | remove k =>
      cases hst
      exact (hashtable_remove_spec hs k).2
    | write k v =>
      simp only [tables, Tabled.step] at hst
      split at hst
      · cases hst
      · rename_i hf
        cases hst
        refine sound_write hs ?_ v
        rw [← hashtable_search_eq hs k, hf]
        simp

/-- Through every order of inserts, removals and growths a search gives what the map
gives, the iterator goes over each key exactly once, and no bucket has to hold more than
the load factor allows until the largest size is reached. -/
theorem the_table_is_a_map {hashfn : κ → UInt32} {s : Tabled κ ν}
    (h : (tables hashfn).ReachBy (freshKeys hashfn) s) :
    (∀ k, hashtable_search hashfn s.h k = s.map k) ∧
      (∃ keys, collect_keys s.h = some keys ∧ keys.Nodup ∧ keys.length = s.h.entrycount ∧
        ∀ k, k ∈ keys ↔ s.map k ≠ none) ∧
      s.h.Loaded := by
  have hs := Tabled.sound_of_reach h
  refine ⟨hashtable_search_eq hs, ⟨_, collect_keys_eq hs.count, hs.binds.nodup, ?_, fun k => ?_⟩,
    hs.loaded⟩
  · rw [List.length_map, hs.count]
  · rw [ne_eq, hs.binds.none_iff, not_not]

/-- One key more than the first size allows, so that the table grows, and one less. -/
theorem a_table_that_grew_is_a_map :
    ∃ s, (tables UInt32.ofNat).ReachBy (freshKeys (ν := Nat) UInt32.ofNat) s ∧
      s.h.primeindex = 1 ∧ ∀ k, hashtable_search UInt32.ofNat s.h k = s.map k := by
  obtain ⟨s, hs, ht⟩ := System.ReachBy.of_run (M := tables (ν := Nat) UInt32.ofNat)
    (G := freshKeys UInt32.ofNat)
    (s := { h := { table := List.replicate 53 [], entrycount := 0, loadlimit := 35, primeindex := 0 },
            map := fun _ => none })
    ((List.range 36).map (fun k => .insert k k) ++ [.remove 7])
    (fun s => s.h.primeindex == 1) (.start ⟨⟨32, by decide⟩, rfl⟩) (by decide +kernel)
  exact ⟨s, hs, by simpa using ht, (the_table_is_a_map hs).1⟩

end

end ZookZhubei
