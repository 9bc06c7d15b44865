-- The end of a handle. Three threads hold references to a `zhandle_t`: the I/O
-- thread, the completion thread and the one that calls `zookeeper_close`. The
-- last one out destroys it. See `api_prolog`, `api_epilog` and
-- `zookeeper_close`, and `mt_adaptor.c` for the threads.
import ZookZhubei.Zookbag
import ZookZhubei.Runs

namespace ZookZhubei

open Runs

/-! ## The model -/

inductive Who
  | io
  | completion
  | app
deriving DecidableEq, Repr

/-- Where a thread is. `k` is where it goes on after the call it is in. -/
inductive Place
  /-- In the loop of `do_io` or `do_completion`, or before the call of `zookeeper_close`. -/
  | work
  /-- In `zookeeper_interest` or `zookeeper_process`, behind its `api_prolog`. -/
  | inside
  /-- Before the decrement of `api_epilog`. -/
  | epilog (k : Place)
  /-- In `api_epilog` with a count of 0, before it reads `close_requested`. -/
  | test (k : Place)
  /-- `zookeeper_close` before its flag, before its increment, and behind it. -/
  | close0 (k : Place)
  | close1 (k : Place)
  | close2 (k : Place)
  /-- `adaptor_finish` before its `api_prolog`, and at its two joins. -/
  | finish0 (k : Place)
  | joinIo (k : Place)
  | joinCompletion (k : Place)
  /-- `destroy`, `adaptor_destroy` and `free`. -/
  | destroy (k : Place)
  | done
deriving DecidableEq, Repr

/-- `freed` counts how often the handle was freed. `touched` says that a thread used it
after that. -/
structure Closing where
  ref_counter : Int
  close_requested : Bool
  io : Place
  completion : Place
  app : Place
  freed : Nat
  touched : Bool
deriving DecidableEq, Repr

def Closing.place (s : Closing) : Who → Place
  | .io => s.io
  | .completion => s.completion
  | .app => s.app

def Closing.goto (s : Closing) (w : Who) (p : Place) : Closing :=
  match w with
  | .io => { s with io := p }
  | .completion => { s with completion := p }
  | .app => { s with app := p }

/-- The next statement of a thread. -/
def Closing.advance (s : Closing) (w : Who) : Option Closing :=
  match s.place w with
  | .work =>
    if w = .app then some (s.goto w (.close0 .done))
    else if s.close_requested then some (s.goto w (.epilog .done))
    else none
  | .inside => some (s.goto w (.epilog .work))
  | .epilog k =>
    some ({ s with ref_counter := s.ref_counter - 1 }.goto w
      (if s.ref_counter - 1 = 0 then .test k else k))
  | .test k => some (s.goto w (if s.close_requested then .close0 k else k))
  | .close0 k => some ({ s with close_requested := true }.goto w (.close1 k))
  | .close1 k =>
    some ({ s with ref_counter := s.ref_counter + 1 }.goto w
      (if 1 < s.ref_counter + 1 then .close2 k else .destroy k))
  | .close2 k => some (s.goto w (.finish0 k))
  | .finish0 k => some ({ s with ref_counter := s.ref_counter + 1 }.goto w (.joinIo k))
  | .joinIo k => if w = .io ∨ s.io = .done then some (s.goto w (.joinCompletion k)) else none
  | .joinCompletion k =>
    if w = .completion ∨ s.completion = .done then some (s.goto w (.epilog (.epilog k))) else none
  | .destroy k => some ({ s with freed := s.freed + 1 }.goto w k)
  | .done => none

inductive CloseAct
  | next (w : Who)
  /-- The I/O thread calls `zookeeper_interest` or `zookeeper_process`. -/
  | enter
  /-- The I/O thread leaves its loop since the state is one to stay in. -/
  | giveUp
deriving DecidableEq, Repr

/-- Each statement uses the handle. -/
def Closing.use (s : Closing) : Closing := { s with touched := s.touched || decide (0 < s.freed) }

def Closing.step (s : Closing) : CloseAct → Option Closing
  | .next w => s.use.advance w
  | .enter =>
    if s.io = .work then some { s.use with io := .inside, ref_counter := s.ref_counter + 1 } else none
  | .giveUp => if s.io = .work then some { s.use with io := .epilog .done } else none

/-- `zookeeper_init` is through: the two threads run, with a reference each. -/
def closings : System Closing CloseAct :=
  { start := fun s =>
      s = { ref_counter := 2, close_requested := false, io := .work, completion := .work,
            app := .work, freed := 0, touched := false }
    step := Closing.step }

/-- The last thread does not end between the first two statements of
`zookeeper_close`, behind the flag and before the increment. -/
def notInTheGap (s : Closing) : CloseAct → Prop
  | .next w => ¬ (s.app = .close1 .done ∧ s.place w = .epilog .done ∧ s.ref_counter = 1)
  | _ => True

instance (s : Closing) : (a : CloseAct) → Decidable (notInTheGap s a)
  | .next _ => inferInstanceAs (Decidable (¬ _))
  | .enter | .giveUp => .isTrue trivial

/-! ## The invariant -/

/-- The references that the I/O thread or the completion thread has. -/
def Place.holds : Place → Int
  | .work => 1
  | .inside => 2
  | .epilog .work => 2
  | .epilog _ => 1
  | _ => 0

/-- The references that the closing thread has. It does not give back the one with
which it destroys the handle. -/
def Place.closes : Place → Int
  | .close2 _ => 1
  | .finish0 _ => 1
  | .joinIo _ => 2
  | .joinCompletion _ => 2
  | .epilog (.epilog _) => 2
  | .epilog _ => 1
  | .destroy _ => 1
  | .done => 1
  | _ => 0

/-- Where the I/O thread can be. -/
def ioPlaces : List Place := [.work, .inside, .epilog .work, .epilog .done, .done]

/-- Where the closing thread can be. -/
def closePlaces : List Place :=
  [.work, .close0 .done, .close1 .done, .close2 .done, .finish0 .done, .joinIo .done,
   .joinCompletion .done, .epilog (.epilog .done), .epilog .done, .test .done, .destroy .done, .done]

structure Closing.Sound (s : Closing) : Prop where
  io : s.io ∈ ioPlaces
  completion : s.completion ∈ [.work, .epilog .done, .done]
  app : s.app ∈ closePlaces
  count : s.ref_counter = s.io.holds + s.completion.holds + s.app.closes
  waits : s.close_requested = false → s.completion = .work ∧ s.app ∈ [.work, .close0 .done]
  early : s.app = .work → s.close_requested = false
  again : s.app = .close0 .done → s.close_requested = true → s.io = .done ∧ s.completion = .done
  joined : s.app = .joinCompletion .done → s.io = .done
  last : s.app ∈ [.epilog (.epilog .done), .epilog .done, .test .done, .destroy .done, .done] →
    s.io = .done ∧ s.completion = .done
  freed : s.freed = if s.app = .done then 1 else 0
  clean : s.touched = false

section
variable {s : Closing}

theorem Place.holds_nonneg (p : Place) : 0 ≤ p.holds := by
  unfold Place.holds
  split <;> omega

@[simp] theorem Place.holds_done : Place.done.holds = 0 := rfl

/-- Only a thread at its end has no reference. -/
theorem Place.eq_done_of_holds {p : Place} (hp : p ∈ ioPlaces) (h : p.holds ≤ 0) : p = .done := by
  have hall : ∀ q ∈ ioPlaces, q.holds ≤ 0 → q = .done := by decide
  exact hall p hp h

theorem Place.closes_nonneg (p : Place) : 0 ≤ p.closes := by
  unfold Place.closes
  split <;> omega

theorem Closing.use_eq (hf : s.freed = 0) : s.use = s := by
  unfold Closing.use
  rw [hf]
  simp
  rw [← hf]

/-- A move of the I/O thread, with the references that go with it. -/
theorem Closing.Sound.io_moves (h : s.Sound) (hne : s.io ≠ .done) {p : Place}
    (hp : p ∈ ioPlaces) {r : Int} (hr : r = s.ref_counter - s.io.holds + p.holds) :
    Closing.Sound { s with io := p, ref_counter := r } := by
  obtain ⟨hio, hcompletion, happ, count, waits, early, again, joined, last, freed, clean⟩ := h
  refine ⟨hp, hcompletion, happ, ?_, waits, early, ?_, ?_, ?_, freed, clean⟩
  · simp only [hr, count]
    omega
  · exact fun ha hc => absurd (again ha hc).1 hne
  · exact fun ha => absurd (joined ha) hne
  · exact fun ha => absurd (last ha).1 hne

/-- A move of the completion thread, after the flag is set. -/
theorem Closing.Sound.completion_moves (h : s.Sound) (hne : s.completion ≠ .done)
    (hc : s.close_requested = true) {p : Place} (hp : p ∈ [.work, .epilog .done, .done]) {r : Int}
    (hr : r = s.ref_counter - s.completion.holds + p.holds) :
    Closing.Sound { s with completion := p, ref_counter := r } := by
  obtain ⟨hio, hcompletion, happ, count, waits, early, again, joined, last, freed, clean⟩ := h
  refine ⟨hio, hp, happ, ?_, ?_, early, ?_, joined, ?_, freed, clean⟩
  · simp only [hr, count]
    omega
  · simp [hc]
  · exact fun ha hc => absurd (again ha hc).2 hne
  · exact fun ha => absurd (last ha).2 hne

/-- A thread that is to drop its own reference is not the last one, but in the gap. -/
theorem Closing.Sound.not_last (h : s.Sound) {w : Who} (hw : w ≠ .app)
    (hp : s.place w = .epilog .done) (hgap : notInTheGap s (.next w)) : s.ref_counter - 1 ≠ 0 := by
  obtain ⟨hio, hcompletion, happ, count, waits, early, again, joined, last, freed, clean⟩ := h
  have hi := s.io.holds_nonneg
  have hc := s.completion.holds_nonneg
  have ha := s.app.closes_nonneg
  have hone : (Place.epilog .done).holds = 1 := rfl
  have hboth : ¬ (s.io = .done ∧ s.completion = .done) := by
    rintro ⟨h1, h2⟩
    cases w <;> simp_all [Closing.place]
  have hmine : 1 ≤ s.io.holds + s.completion.holds := by
    cases w with
    | io => rw [show s.io = .epilog .done from hp]; omega
    | completion => rw [show s.completion = .epilog .done from hp]; omega
    | app => contradiction
  by_cases hclose : s.close_requested = true
  · by_cases hzero : s.app.closes = 0
    · simp only [closePlaces, List.mem_cons, List.not_mem_nil, or_false] at happ
      rcases happ with h | h | h | h | h | h | h | h | h | h | h | h
      · simp [early h] at hclose
      · exact absurd (again h hclose) hboth
      · exact fun hr => hgap ⟨h, hp, by omega⟩
      all_goals first
        | (simp [h, Place.closes] at hzero; done)
        | exact absurd (last (by simp [h])) hboth
    · omega
  · -- Before the flag the completion thread is in its loop.
    have hwork := (waits (by simpa using hclose)).1
    cases w with
    | io =>
      have h1 : s.io.holds = 1 := by rw [show s.io = .epilog .done from hp]; rfl
      have h2 : s.completion.holds = 1 := by rw [hwork]; rfl
      omega
    | completion =>
      have hp' : s.completion = .epilog .done := hp
      simp [hwork] at hp'
    | app => contradiction

theorem Closing.sound_io {s' : Closing} (h : s.Sound) (hg : notInTheGap s (.next .io))
    (hs : s.advance .io = some s') : s'.Sound := by
  have hcase := h.io
  simp only [ioPlaces, List.mem_cons, List.not_mem_nil, or_false] at hcase
  rcases hcase with hp | hp | hp | hp | hp
  · simp only [Closing.advance, Closing.place, hp] at hs
    split at hs
    · contradiction
    · split at hs
      · cases hs
        exact h.io_moves (by simp [hp]) (by decide) (by simp [hp, Place.holds])
      · cases hs
  · simp only [Closing.advance, Closing.place, hp] at hs
    cases hs
    exact h.io_moves (by simp [hp]) (by decide) (by simp [hp, Place.holds])
  · have hv : s.ref_counter - 1 ≠ 0 := by
      have h1 := s.completion.holds_nonneg
      have h2 := s.app.closes_nonneg
      have h3 : s.io.holds = 2 := by rw [hp]; rfl
      rw [h.count, h3]
      omega
    simp only [Closing.advance, Closing.place, hp, hv, if_false] at hs
    cases hs
    exact h.io_moves (by simp [hp]) (by decide) (by simp [hp, Place.holds]; omega)
  · have hv := h.not_last (w := .io) (by simp) hp hg
    simp only [Closing.advance, Closing.place, hp, hv, if_false] at hs
    cases hs
    exact h.io_moves (by simp [hp]) (by decide) (by simp [hp, Place.holds])
  · simp [Closing.advance, Closing.place, hp] at hs

theorem Closing.sound_completion {s' : Closing} (h : s.Sound)
    (hg : notInTheGap s (.next .completion)) (hs : s.advance .completion = some s') : s'.Sound := by
  have hcase := h.completion
  simp only [List.mem_cons, List.not_mem_nil, or_false] at hcase
  rcases hcase with hp | hp | hp
  · simp only [Closing.advance, Closing.place, hp] at hs
    split at hs
    · contradiction
    · split at hs
      · rename_i hc
        cases hs
        exact h.completion_moves (by simp [hp]) hc (by simp) (by simp [hp, Place.holds])
      · cases hs
  · have hc : s.close_requested = true := by
      by_contra hc
      simp [(h.waits (by simpa using hc)).1] at hp
    have hv := h.not_last (w := .completion) (by simp) hp hg
    simp only [Closing.advance, Closing.place, hp, hv, if_false] at hs
    cases hs
    exact h.completion_moves (by simp [hp]) hc (by simp) (by simp [hp, Place.holds])
  · simp [Closing.advance, Closing.place, hp] at hs

/-- A move of the closing thread up to its joins. -/
theorem Closing.Sound.app_closes (h : s.Sound) {p : Place}
    (hp : p ∈ [.close1 .done, .close2 .done, .finish0 .done, .joinIo .done, .joinCompletion .done])
    (hj : p = .joinCompletion .done → s.io = .done) {r : Int}
    (hr : r = s.ref_counter - s.app.closes + p.closes) (hf : s.freed = 0) :
    Closing.Sound { s with app := p, ref_counter := r, close_requested := true } := by
  obtain ⟨hio, hcompletion, happ, count, waits, early, again, joined, last, freed, clean⟩ := h
  have hcount : r = s.io.holds + s.completion.holds + p.closes := by omega
  simp only [List.mem_cons, List.not_mem_nil, or_false] at hp
  rcases hp with rfl | rfl | rfl | rfl | rfl
  all_goals refine ⟨hio, hcompletion, by simp [closePlaces], hcount, by simp, by simp, by simp, ?_, by simp, ?_,
    clean⟩
  all_goals first
    | exact hj
    | simpa using hf

/-- A move of the closing thread behind its joins, when it is alone. -/
theorem Closing.Sound.app_ends (h : s.Sound) (hi : s.io = .done) (hc : s.completion = .done)
    (hclose : s.close_requested = true) {p : Place}
    (hp : p ∈ [.close0 .done, .epilog (.epilog .done), .epilog .done, .test .done, .destroy .done,
      .done]) {r : Int} (hr : r = p.closes) {f : Nat} (hf : f = if p = .done then 1 else 0) :
    Closing.Sound { s with app := p, ref_counter := r, freed := f } := by
  obtain ⟨hio, hcompletion, happ, count, waits, early, again, joined, last, freed, clean⟩ := h
  have hcount : r = s.io.holds + s.completion.holds + p.closes := by
    rw [hi, hc, hr]
    simp
  have hin : p ∈ closePlaces := by
    have hsub : ∀ q ∈ [Place.close0 .done, .epilog (.epilog .done), .epilog .done, .test .done,
        .destroy .done, .done], q ∈ closePlaces := by decide
    exact hsub p hp
  have hwork : p ≠ .work := by
    rintro rfl
    simp at hp
  exact ⟨hio, hcompletion, hin, hcount, by simp [hclose], fun hw => absurd hw hwork,
    fun _ _ => ⟨hi, hc⟩, fun _ => hi, fun _ => ⟨hi, hc⟩, hf, clean⟩

theorem Closing.sound_app {s' : Closing} (h : s.Sound) (hs : s.advance .app = some s') :
    s'.Sound := by
  have hcase := h.app
  have hcount := h.count
  simp only [closePlaces, List.mem_cons, List.not_mem_nil, or_false] at hcase
  -- Behind the flag and with no part in `joined` or `last` the state is as it was.
  have hflag (ha : s.app ∉ [.work, .close0 .done]) : s.close_requested = true := by
    by_contra hc
    exact ha (h.waits (by simpa using hc)).2
  have hfree (ha : s.app ≠ .done) : s.freed = 0 := by rw [h.freed, if_neg ha]
  rcases hcase with hp | hp | hp | hp | hp | hp | hp | hp | hp | hp | hp | hp
  all_goals simp only [Closing.advance, Closing.place, hp] at hs
  · cases hs
    have hc := h.early hp
    obtain ⟨hio, hcompletion, happ, count, waits, early, again, joined, last, freed, clean⟩ := h
    refine ⟨hio, hcompletion, (by decide : Place.close0 .done ∈ closePlaces), ?_, ?_, ?_, ?_, ?_, ?_, ?_,
      clean⟩
    · simp only [Closing.goto, count, hp]
      rfl
    · exact fun hc => ⟨(waits hc).1, by simp [Closing.goto]⟩
    all_goals simp [Closing.goto, hc, hfree (by simp [hp])]
  · cases hs
    exact h.app_closes (by simp) (by simp) (by simp [hp, Place.closes]) (hfree (by simp [hp]))
  · have hc := hflag (by simp [hp])
    by_cases hv : 1 < s.ref_counter + 1
    · rw [if_pos hv] at hs
      cases hs
      have h' := h.app_closes (p := .close2 .done) (r := s.ref_counter + 1) (by simp) (by simp)
        (by simp [hp, Place.closes]) (hfree (by simp [hp]))
      simpa [Closing.goto, hc] using h'
    · -- No other reference is left, so the other threads are at their ends.
      have hi := s.io.holds_nonneg
      have hco := s.completion.holds_nonneg
      have hzero : s.app.closes = 0 := by rw [hp]; rfl
      have h1 : s.io = .done := Place.eq_done_of_holds h.io (by omega)
      have h2 : s.completion = .done := by
        have hsub : ∀ q ∈ [Place.work, .epilog .done, .done], q ∈ ioPlaces := by decide
        exact Place.eq_done_of_holds (hsub _ h.completion) (by omega)
      have hr : s.ref_counter + 1 = (Place.destroy .done).closes := by
        rw [hcount, h1, h2, hp]
        rfl
      rw [if_neg hv] at hs
      cases hs
      exact h.app_ends h1 h2 hc (by simp) hr (by simp [hfree (by simp [hp])])
  · cases hs
    have h' := h.app_closes (p := .finish0 .done) (r := s.ref_counter) (by simp) (by simp)
      (by simp [hp, Place.closes]) (hfree (by simp [hp]))
    simpa [Closing.goto, hflag (by simp [hp])] using h'
  · cases hs
    have h' := h.app_closes (p := .joinIo .done) (r := s.ref_counter + 1) (by simp) (by simp)
      (by simp [hp, Place.closes]; omega) (hfree (by simp [hp]))
    simpa [Closing.goto, hflag (by simp [hp])] using h'
  · split at hs
    · rename_i hio
      cases hs
      have h' := h.app_closes (p := .joinCompletion .done) (r := s.ref_counter) (by simp)
        (fun _ => by simpa using hio) (by simp [hp, Place.closes]) (hfree (by simp [hp]))
      simpa [Closing.goto, hflag (by simp [hp])] using h'
    · cases hs
  · split at hs
    · rename_i hco
      cases hs
      have h1 := h.joined hp
      have h2 : s.completion = .done := by simpa using hco
      exact h.app_ends h1 h2 (hflag (by simp [hp])) (by simp)
        (by rw [hcount, h1, h2, hp]; rfl) (by simp [hfree (by simp [hp])])
    · cases hs
  · obtain ⟨h1, h2⟩ := h.last (by simp [hp])
    have hr : s.ref_counter = 2 := by
      rw [hcount, h1, h2, hp]
      rfl
    rw [if_neg (by omega)] at hs
    cases hs
    exact h.app_ends h1 h2 (hflag (by simp [hp])) (p := .epilog .done) (by simp)
      (by rw [hr]; rfl) (by simp [hfree (by simp [hp])])
  · obtain ⟨h1, h2⟩ := h.last (by simp [hp])
    have hr : s.ref_counter = 1 := by
      rw [hcount, h1, h2, hp]
      rfl
    rw [if_pos (by omega)] at hs
    cases hs
    exact h.app_ends h1 h2 (hflag (by simp [hp])) (p := .test .done) (by simp)
      (by rw [hr]; rfl) (by simp [hfree (by simp [hp])])
  · obtain ⟨h1, h2⟩ := h.last (by simp [hp])
    have hc := hflag (by simp [hp])
    rw [if_pos hc] at hs
    cases hs
    exact h.app_ends h1 h2 hc (by simp) (by rw [hcount, h1, h2, hp]; rfl)
      (by simp [hfree (by simp [hp])])
  · obtain ⟨h1, h2⟩ := h.last (by simp [hp])
    cases hs
    exact h.app_ends h1 h2 (hflag (by simp [hp])) (p := .done) (by simp)
      (by rw [hcount, h1, h2, hp]; rfl) (by simp [hfree (by simp [hp])])
  · cases hs

theorem Closing.sound_step {s' : Closing} {a : CloseAct} (h : s.Sound) (hg : notInTheGap s a)
    (hs : s.step a = some s') : s'.Sound := by
  -- Behind the free no thread has a step left.
  have hfree : s.freed = 0 := by
    by_contra hne
    have hd : s.app = .done := by
      by_contra ha
      rw [h.freed, if_neg ha] at hne
      exact hne rfl
    obtain ⟨h1, h2⟩ := h.last (by simp [hd])
    cases a with
    | next w => cases w <;> simp [Closing.step, Closing.use, Closing.advance, Closing.place, h1, h2, hd] at hs
    | enter => simp [Closing.step, h1] at hs
    | giveUp => simp [Closing.step, h1] at hs
  have huse := Closing.use_eq hfree
  cases a with
  | next w =>
    simp only [Closing.step, huse] at hs
    cases w with
    | io => exact Closing.sound_io h hg hs
    | completion => exact Closing.sound_completion h hg hs
    | app => exact Closing.sound_app h hs
  | enter =>
    simp only [Closing.step, huse] at hs
    split at hs
    · rename_i hp
      cases hs
      exact h.io_moves (by simp [hp]) (by decide) (by simp [hp, Place.holds]; omega)
    · cases hs
  | giveUp =>
    simp only [Closing.step, huse] at hs
    split at hs
    · rename_i hp
      cases hs
      exact h.io_moves (by simp [hp]) (by decide) (by simp [hp, Place.holds])
    · cases hs

end

theorem Closing.sound_of_reach {s : Closing} (h : closings.ReachBy notInTheGap s) : s.Sound := by
  refine System.ReachBy.invariant (P := Closing.Sound) ?_ ?_ h
  · rintro s rfl
    constructor <;> simp [ioPlaces, closePlaces, Place.holds, Place.closes]
  · exact fun _ _ _ hi hg hs => Closing.sound_step hi hg hs

/-- Unless the last thread ends in the gap, no thread uses the handle after it is freed,
it is freed no more than once, and when `zookeeper_close` returns it is freed and both
threads are at their ends. -/
theorem a_handle_is_freed_once_and_not_used_again {s : Closing}
    (h : closings.ReachBy notInTheGap s) :
    s.touched = false ∧ s.freed ≤ 1 ∧ (s.freed = 1 ↔ s.app = .done) ∧
      (s.app = .done → s.io = .done ∧ s.completion = .done) := by
  have hs := Closing.sound_of_reach h
  refine ⟨hs.clean, ?_, ?_, fun hd => hs.last (by simp [hd])⟩
  · rw [hs.freed]
    split <;> omega
  · rw [hs.freed]
    split <;> simp_all

/-- In the gap the I/O thread drops the last reference, destroys the handle, and the
increment of `zookeeper_close` comes after that. -/
example : (closings.run
    { ref_counter := 2, close_requested := false, io := .work, completion := .work, app := .work,
      freed := 0, touched := false }
    ([.next .app, .next .app, .next .completion, .next .completion, .next .io, .next .io, .next .io,
      .next .io, .next .io, .next .io, .next .app])).any (fun s => s.freed == 1 && s.touched) := by
  decide

/-- The two threads end while the closing one waits at its joins. -/
def closesInOrder : List CloseAct :=
  [.next .app, .next .app, .next .app, .next .app, .enter, .next .app, .next .io, .next .io,
   .next .io, .next .io, .next .app, .next .completion, .next .completion, .next .app, .next .app,
   .next .app, .next .app, .next .app, .next .app, .next .app]

theorem a_handle_that_is_closed_in_order :
    ∃ s, closings.ReachBy notInTheGap s ∧ s.app = .done ∧ s.touched = false ∧ s.freed = 1 := by
  obtain ⟨s, hs, ht⟩ := System.ReachBy.of_run (M := closings) (G := notInTheGap) closesInOrder
    (fun s => s.app == .done) (.start rfl) (by decide)
  have hdone : s.app = .done := by simpa using ht
  have hfree := a_handle_is_freed_once_and_not_used_again hs
  exact ⟨s, hs, hdone, hfree.1, hfree.2.2.1.mpr hdone⟩

end ZookZhubei
