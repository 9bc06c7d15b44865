-- Readers and writers of a list of bytes. A writer appends to what a sink
-- holds, and a reader takes off the front of what a source has left. A reader
-- that fails keeps what it took, as a cursor in memory does.
import Mathlib.Tactic.Ring
import Mathlib.Data.List.Infix

namespace Codec

variable {ε β σ τ α γ : Type}

/-- A reader over sources `σ` with errors `ε`. -/
abbrev Reader (ε σ α : Type) := ExceptT ε (StateM σ) α

/-- A writer to sinks `τ`. It may not come back. -/
abbrev Appender (τ α : Type) := StateT τ Option α

/-- `w` appends `bs`, and comes back where all that is written stays within a limit. -/
structure Writes (out : τ → List β) (limit : Nat) (w : Appender τ Unit) (bs : List β) : Prop where
  appends : ∀ t t', w.run t = some ((), t') → out t' = out t ++ bs
  returns : ∀ t, (out t).length + bs.length ≤ limit → ∃ t', w.run t = some ((), t')

/-- `w` keeps `P`. -/
def Keeps (P : τ → Prop) (w : Appender τ Unit) : Prop := ∀ t t', P t → w.run t = some ((), t') → P t'

/-- `r` takes `bs` off the front, whatever stands behind it, and gives `a`. -/
def Reads (rest : σ → List β) (r : Reader ε σ α) (bs : List β) (a : α) : Prop :=
  ∀ s tail, rest s = bs ++ tail → ∃ s', r.run.run s = (.ok a, s') ∧ rest s' = tail

/-- The same for a reader whose errors nobody looks at. -/
def Yields (rest : σ → List β) (m : StateM σ α) (bs : List β) (a : α) : Prop :=
  ∀ s tail, rest s = bs ++ tail → ∃ s', m.run s = (a, s') ∧ rest s' = tail

/-- `r` fails on every source that ends before `bs` does, and `Q` ties the error to the
length that was there. -/
def Needs (rest : σ → List β) (r : Reader ε σ α) (bs : List β) (Q : Nat → ε → Prop) : Prop :=
  ∀ s, rest s <+: bs → rest s ≠ bs →
    ∃ e s', r.run.run s = (.error e, s') ∧ Q (rest s).length e

/-- Two sources with the same list left are the same to `r`. -/
def Confined (rest : σ → List β) (r : Reader ε σ α) : Prop :=
  ∀ s t, rest s = rest t →
    (r.run.run s).1 = (r.run.run t).1 ∧ rest (r.run.run s).2 = rest (r.run.run t).2

variable {out : τ → List β} {limit : Nat} {rest : σ → List β} {bs bs' : List β} {a : α} {c : γ}

/-! ## One after the other -/

/-- The second of two writers goes on from where the first one came back. -/
theorem run_seq {w w' : Appender τ Unit} {t t' : τ} :
    (do w; w').run t = some ((), t') ↔ ∃ t1, w.run t = some ((), t1) ∧ w'.run t1 = some ((), t') := by
  rw [StateT.run_bind]
  cases w.run t with
  | none => simp
  | some p =>
    obtain ⟨⟨⟩, t1⟩ := p
    simp

theorem Writes.bind {w w' : Appender τ Unit} (h : Writes out limit w bs) (h' : Writes out limit w' bs') :
    Writes out limit (do w; w') (bs ++ bs') := by
  constructor
  · intro t t' ht
    obtain ⟨t1, h1, h2⟩ := run_seq.mp ht
    rw [h'.appends t1 t' h2, h.appends t t1 h1, List.append_assoc]
  · intro t hlen
    rw [List.length_append] at hlen
    obtain ⟨t1, h1⟩ := h.returns t (by omega)
    have hout := congrArg List.length (h.appends t t1 h1)
    rw [List.length_append] at hout
    obtain ⟨t2, h2⟩ := h'.returns t1 (by omega)
    exact ⟨t2, run_seq.mpr ⟨t1, h1, h2⟩⟩

theorem Writes.nil : Writes out limit (pure () : Appender τ Unit) [] := by
  constructor
  · intro t t' ht
    cases ht
    exact (List.append_nil _).symm
  · intro t _
    exact ⟨t, rfl⟩

theorem Keeps.bind {P : τ → Prop} {w w' : Appender τ Unit} (h : Keeps P w) (h' : Keeps P w') :
    Keeps P (do w; w') := by
  intro t t' ht hrun
  obtain ⟨t1, h1, h2⟩ := run_seq.mp hrun
  exact h' t1 t' (h t t1 ht h1) h2

theorem Keeps.nil {P : τ → Prop} : Keeps P (pure () : Appender τ Unit) := by
  intro t t' ht hrun
  cases hrun
  exact ht

theorem run_bind (r : Reader ε σ α) (f : α → Reader ε σ γ) (s : σ) :
    (r >>= f).run.run s =
      match r.run.run s with
      | (.ok a, s') => (f a).run.run s'
      | (.error e, s') => (.error e, s') := by
  simp only [ExceptT.run_bind, StateT.run_bind]
  rcases r.run.run s with ⟨_ | _, _⟩ <;> rfl

theorem Reads.pure (a : α) : Reads rest (pure a : Reader ε σ α) [] a := by
  intro s tail h
  exact ⟨s, rfl, by simpa using h⟩

theorem Reads.bind {r : Reader ε σ α} {f : α → Reader ε σ γ} (h : Reads rest r bs a)
    (h' : Reads rest (f a) bs' c) : Reads rest (r >>= f) (bs ++ bs') c := by
  intro s tail hs
  obtain ⟨s1, h1, hr1⟩ := h s (bs' ++ tail) (by rw [hs, List.append_assoc])
  obtain ⟨s2, h2, hr2⟩ := h' s1 tail hr1
  refine ⟨s2, ?_, hr2⟩
  rw [run_bind, h1]
  exact h2

/-- The last field of a record, with the record made of it. -/
theorem Reads.map {r : Reader ε σ α} {f : α → γ} (h : Reads rest r bs a) :
    Reads rest (do return f (← r)) bs (f a) := by
  have h1 := h.bind (f := fun x => (Pure.pure (f x) : Reader ε σ γ)) (Reads.pure (f a))
  rwa [List.append_nil] at h1

theorem run_bind_error {r : Reader ε σ α} (f : α → Reader ε σ γ) {e : ε} {s s' : σ}
    (h : r.run.run s = (.error e, s')) : (r >>= f).run.run s = (.error e, s') := by
  rw [run_bind, h]

theorem run_then {m : StateM σ α} {f : α → StateM σ γ} {s s' : σ} (h : m.run s = (a, s')) :
    (m >>= f).run s = (f a).run s' := by
  rw [StateT.run_bind, h]
  rfl

theorem Yields.pure (a : α) : Yields rest (pure a : StateM σ α) [] a := by
  intro s tail h
  exact ⟨s, rfl, h⟩

theorem Yields.bind {m : StateM σ α} {f : α → StateM σ γ} (h : Yields rest m bs a)
    (h' : Yields rest (f a) bs' c) : Yields rest (m >>= f) (bs ++ bs') c := by
  intro s tail hs
  rw [List.append_assoc] at hs
  obtain ⟨s1, h1, hr1⟩ := h s _ hs
  obtain ⟨s2, h2, hr2⟩ := h' s1 tail hr1
  exact ⟨s2, (run_then h1).trans h2, hr2⟩

/-- The last reader, and something made of what it gives. -/
theorem Yields.last {m : StateM σ α} {f : α → StateM σ γ} (h : Yields rest m bs a)
    (hf : f a = Pure.pure c) : Yields rest (m >>= f) bs c := by
  have h' : Yields rest (f a) [] c := hf ▸ Yields.pure c
  have hb := h.bind h'
  rwa [List.append_nil] at hb

theorem Reads.yields {r : Reader ε σ α} (h : Reads rest r bs a) : Yields rest r.run bs (.ok a) := by
  intro s tail hs
  exact h s tail hs

/-- A list that ends inside `bs ++ bs'` ends inside `bs`, or behind it inside `bs'`. -/
theorem prefix_append_cases {l : List β} (h : l <+: bs ++ bs') (hne : l ≠ bs ++ bs') :
    (l <+: bs ∧ l ≠ bs) ∨ ∃ l', l = bs ++ l' ∧ l' <+: bs' ∧ l' ≠ bs' := by
  obtain ⟨m, hm⟩ := h
  rcases List.append_eq_append_iff.mp hm with ⟨d, hd, _⟩ | ⟨d, hd, hd'⟩
  · by_cases hl : l = bs
    · refine .inr ⟨[], by simp [hl], List.nil_prefix, ?_⟩
      rintro rfl
      exact hne (by simp [hl])
    · exact .inl ⟨⟨d, hd.symm⟩, hl⟩
  · refine .inr ⟨d, hd, ⟨m, hd'.symm⟩, ?_⟩
    rintro rfl
    exact hne hd

theorem length_lt_of_beginning {l : List β} (h : l <+: bs) (hne : l ≠ bs) : l.length < bs.length := by
  have h1 := h.length_le
  have h2 : l.length ≠ bs.length := fun he => hne (h.eq_of_length he)
  omega

section
variable {r : Reader ε σ α} {Q Q' : Nat → ε → Prop}

theorem Needs.nil (r : Reader ε σ α) : Needs rest r [] Q := by
  intro s h hne
  exact absurd (List.prefix_nil.mp h) hne

theorem Needs.mono (hn : Needs rest r bs Q) (h : ∀ n e, n < bs.length → Q n e → Q' n e) :
    Needs rest r bs Q' := by
  intro s hp hne
  obtain ⟨e, s', hr, hq⟩ := hn s hp hne
  exact ⟨e, s', hr, h _ _ (length_lt_of_beginning hp hne) hq⟩

/-- The first reader fails inside its own part, and the second one behind it. -/
theorem Needs.bind {f : α → Reader ε σ γ} (hn : Needs rest r bs Q) (h : Reads rest r bs a)
    (hn' : Needs rest (f a) bs' Q') :
    Needs rest (r >>= f) (bs ++ bs')
      fun n e => if n < bs.length then Q n e else Q' (n - bs.length) e := by
  intro s hp hne
  rw [run_bind]
  rcases prefix_append_cases hp hne with ⟨h1, h2⟩ | ⟨l, h1, h2, h3⟩
  · obtain ⟨e, s', hr, hq⟩ := hn s h1 h2
    refine ⟨e, s', by rw [hr], ?_⟩
    simpa only [if_pos (length_lt_of_beginning h1 h2)] using hq
  · obtain ⟨s', hr, hs'⟩ := h s l h1
    obtain ⟨e, t, ht, hq⟩ := hn' s' (hs' ▸ h2) (hs' ▸ h3)
    refine ⟨e, t, by rw [hr]; exact ht, ?_⟩
    have hn : ¬ (bs ++ l).length < bs.length := by simp
    have hl : (bs ++ l).length - bs.length = (rest s').length := by simp [hs']
    simpa only [h1, if_neg hn, hl] using hq

theorem Needs.map {f : α → γ} (hn : Needs rest r bs Q) : Needs rest (do return f (← r)) bs Q := by
  intro s hp hne
  obtain ⟨e, s', hr, hq⟩ := hn s hp hne
  exact ⟨e, s', run_bind_error _ hr, hq⟩

end

theorem Confined.pure (a : α) : Confined rest (pure a : Reader ε σ α) := by
  intro s t h
  exact ⟨rfl, h⟩

theorem Confined.throw (e : ε) : Confined rest (throw e : Reader ε σ α) := by
  intro s t h
  exact ⟨rfl, h⟩

theorem Confined.bind {r : Reader ε σ α} {f : α → Reader ε σ γ} (h : Confined rest r)
    (h' : ∀ a, Confined rest (f a)) : Confined rest (r >>= f) := by
  intro s t hst
  rw [run_bind, run_bind]
  obtain ⟨h1, h2⟩ := h s t hst
  revert h1 h2
  rcases r.run.run s with ⟨rs, s'⟩
  rcases r.run.run t with ⟨rt, t'⟩
  rintro rfl h2
  cases rs with
  | error e => exact ⟨rfl, h2⟩
  | ok a => exact h' a s' t' h2

/-! ## Another error in the place of the first -/

section
variable {ε' : Type} {r : Reader ε σ α}

theorem run_adapt (f : ε → ε') (r : Reader ε σ α) (s : σ) :
    (ExceptT.adapt f r).run.run s = ((r.run.run s).1.mapError f, (r.run.run s).2) := rfl

theorem run_adapt_error (f : ε → ε') {e : ε} {s s' : σ} (h : r.run.run s = (.error e, s')) :
    (ExceptT.adapt f r).run.run s = (.error (f e), s') := by
  rw [run_adapt, h]
  rfl

theorem Reads.adapt (f : ε → ε') (h : Reads rest r bs a) :
    Reads rest (ExceptT.adapt f r) bs a := by
  intro s tail hs
  obtain ⟨s', hr, hrest⟩ := h s tail hs
  exact ⟨s', by rw [run_adapt, hr]; rfl, hrest⟩

theorem Needs.adapt {Q : Nat → ε → Prop} {R : Nat → ε' → Prop} {f : ε → ε'}
    (hn : Needs rest r bs Q) (h : ∀ n e, Q n e → R n (f e)) :
    Needs rest (ExceptT.adapt f r) bs R := by
  intro s hp hne
  obtain ⟨e, s', hr, hq⟩ := hn s hp hne
  exact ⟨f e, s', by rw [run_adapt, hr]; rfl, h _ _ hq⟩

theorem Confined.adapt (f : ε → ε') (h : Confined rest r) :
    Confined rest (ExceptT.adapt f r) := by
  intro s t hst
  obtain ⟨h1, h2⟩ := h s t hst
  rw [run_adapt, run_adapt, h1]
  exact ⟨rfl, h2⟩

end

/-! ## Fixed widths, the high byte first -/

/-- The lowest `n` bytes of `v`. -/
def be : Nat → Nat → List UInt8
  | 0, _ => []
  | n + 1, v => UInt8.ofNat (v / 256 ^ n) :: be n v

/-- The number that the bytes spell. -/
def ofBe (bs : List UInt8) : Nat := bs.foldl (fun a b => a * 256 + b.toNat) 0

@[simp] theorem length_be (n v : Nat) : (be n v).length = n := by
  induction n with
  | zero => rfl
  | succ n ih => simp [be, ih]

theorem foldl_be (n v a : Nat) :
    (be n v).foldl (fun a b => a * 256 + b.toNat) a = a * 256 ^ n + v % 256 ^ n := by
  induction n generalizing a with
  | zero => simp [be, Nat.mod_one]
  | succ n ih =>
    have hb : (UInt8.ofNat (v / 256 ^ n)).toNat = v / 256 ^ n % 256 := by simp
    simp only [be, List.foldl_cons, ih, hb, Nat.mod_pow_succ]
    ring

theorem ofBe_be (n v : Nat) : ofBe (be n v) = v % 256 ^ n := by
  unfold ofBe
  rw [foldl_be]
  omega

theorem foldl_lt (bs : List UInt8) (a : Nat) :
    bs.foldl (fun a b => a * 256 + b.toNat) a < (a + 1) * 256 ^ bs.length := by
  induction bs generalizing a with
  | nil => simp
  | cons b bs ih =>
    have hb : a * 256 + b.toNat + 1 ≤ (a + 1) * 256 := by
      have := b.toNat_lt
      omega
    calc (b :: bs).foldl (fun a b => a * 256 + b.toNat) a
        < (a * 256 + b.toNat + 1) * 256 ^ bs.length := ih _
      _ ≤ (a + 1) * 256 * 256 ^ bs.length := Nat.mul_le_mul_right _ hb
      _ = (a + 1) * 256 ^ (b :: bs).length := by rw [List.length_cons, Nat.pow_succ']; ring

theorem ofBe_lt (bs : List UInt8) : ofBe bs < 256 ^ bs.length := by
  simpa [ofBe] using foldl_lt bs 0

/-! ## Frames -/

/-- A message behind the four bytes of its length. -/
def frame (b : List UInt8) : List UInt8 := be 4 b.length ++ b

/-- A stream that holds a whole frame at its front. -/
def framed (bs : List UInt8) : Bool :=
  decide (4 ≤ bs.length) && decide (ofBe (bs.take 4) ≤ bs.length - 4)

/-- The whole frames of a stream, and what is left behind them. -/
def unframe (bs : List UInt8) : List (List UInt8) × List UInt8 :=
  if _h : framed bs = true then
    let n := ofBe (bs.take 4)
    ((bs.drop 4).take n :: (unframe (bs.drop (4 + n))).1, (unframe (bs.drop (4 + n))).2)
  else ([], bs)
termination_by bs.length
decreasing_by
  all_goals
    simp only [framed, Bool.and_eq_true, decide_eq_true_eq] at _h
    simp only [List.length_drop]
    omega

theorem unframe_of_not_framed {bs : List UInt8} (h : framed bs = false) :
    unframe bs = ([], bs) := by
  rw [unframe]
  simp [h]

/-- A header that spells the length of what follows it makes a frame. -/
theorem unframe_cons {hdr b : List UInt8} (h4 : hdr.length = 4) (hn : ofBe hdr = b.length)
    (rest : List UInt8) :
    unframe (hdr ++ b ++ rest) = (b :: (unframe rest).1, (unframe rest).2) := by
  have htake : (hdr ++ b ++ rest).take 4 = hdr := by rw [List.append_assoc, List.take_left' h4]
  have hf : framed (hdr ++ b ++ rest) = true := by
    simp only [framed, htake, hn, List.length_append, h4, Bool.and_eq_true, decide_eq_true_eq]
    omega
  have hbody : ((hdr ++ b ++ rest).drop 4).take b.length = b := by
    rw [List.append_assoc, List.drop_left' h4, List.take_left' rfl]
  have hdrop : (hdr ++ b ++ rest).drop (4 + b.length) = rest :=
    List.drop_left' (by simp [h4])
  rw [unframe]
  simp only [hf, dite_true, htake, hn, hbody, hdrop]

/-- Cutting goes on behind the frames that are already cut off. -/
theorem unframe_append (bs more : List UInt8) :
    unframe (bs ++ more) =
      ((unframe bs).1 ++ (unframe ((unframe bs).2 ++ more)).1,
        (unframe ((unframe bs).2 ++ more)).2) := by
  fun_induction unframe bs with
  | case1 bs h n ih =>
    simp only [framed, Bool.and_eq_true, decide_eq_true_eq] at h
    have hn : n ≤ bs.length - 4 := h.2
    have hsplit : bs.take 4 ++ (bs.drop 4).take n ++ bs.drop (4 + n) = bs := by
      rw [List.append_assoc, ← List.drop_drop, List.take_append_drop, List.take_append_drop]
    have h4 : (bs.take 4).length = 4 := by simp; omega
    have hbody : n = ((bs.drop 4).take n).length := by
      simp only [List.length_take, List.length_drop]
      omega
    have hcut := unframe_cons h4 hbody (bs.drop (4 + n) ++ more)
    rw [← List.append_assoc, hsplit] at hcut
    rw [hcut, ih]
    simp
  | case2 bs h => simp

theorem ofBe_be_length {b : List UInt8} (hb : b.length < 2 ^ 32) : ofBe (be 4 b.length) = b.length := by
  rw [ofBe_be]
  exact Nat.mod_eq_of_lt (by omega)

theorem unframe_frame {b : List UInt8} (hb : b.length < 2 ^ 32) (rest : List UInt8) :
    unframe (frame b ++ rest) = (b :: (unframe rest).1, (unframe rest).2) :=
  unframe_cons (length_be 4 _) (ofBe_be_length hb) rest

theorem not_framed_of_prefix {b p : List UInt8} (hb : b.length < 2 ^ 32) (hp : p <+: frame b)
    (hne : p ≠ frame b) : framed p = false := by
  have hlen : (frame b).length = 4 + b.length := by simp [frame]
  have hle := hp.length_le
  have hlt : p.length ≠ (frame b).length := fun h => hne (hp.eq_of_length h)
  by_contra hc
  simp only [framed, Bool.not_eq_false, Bool.and_eq_true, decide_eq_true_eq] at hc
  have htake : p.take 4 = be 4 b.length := by
    obtain ⟨q, hq⟩ := hp
    rw [← List.take_append_of_le_length hc.1, hq, frame, List.take_left' (length_be 4 _)]
  rw [htake, ofBe_be_length hb] at hc
  omega

/-- A stream of whole frames gives back the messages. -/
theorem unframe_flatMap {bodies : List (List UInt8)} (h : ∀ b ∈ bodies, b.length < 2 ^ 32)
    (rest : List UInt8) :
    unframe (bodies.flatMap frame ++ rest) = (bodies ++ (unframe rest).1, (unframe rest).2) := by
  induction bodies with
  | nil => rfl
  | cons b bodies ih =>
    rw [List.flatMap_cons, List.append_assoc, unframe_frame (h b (by simp)),
      ih fun x hx => h x (by simp [hx])]
    rfl

end Codec
