-- One object of the class `zookbag` over its whole life: the handles that it
-- was given, which of them it still has, and what its local test of the
-- session rests on. See `zookbag.cpp` and `zookeeper.c`.
import ZookZhubei.Runs
import ZookZhubei.Zookbag

namespace ZookZhubei

open Runs

/-! ## The object -/

/-- What `zookeeper_init` gives: a handle, or null. `text` is
`strerror(errno)`. -/
inductive Init
  | handle
  | null (errno : Int) (text : Str)
deriving DecidableEq, Repr

/-- The members of the object. A handle is a number, and `next` is the next one.
`clientid` is the handle that `_zk_clientid` points into. Of a handle, `zh` is
what it holds, `closed` is how often it was passed to `zookeeper_close`, and
`down` says that a CONNECTING callback came for it, and no CONNECTED callback
after that. The program reads neither of the last two. -/
structure Owner where
  handle : Option Nat
  clientid : Option Nat
  zk_nodes : Str
  expected_session_timeout : Int
  physical_session_timeout : Int
  start_connect_time : Int
  now : Int
  next : Nat
  zh : Nat → Handle
  closed : Nat → Nat
  down : Nat → Bool

namespace Owner

/-- The handles from `zookeeper_init` that were not passed to
`zookeeper_close`. -/
def isOpen (s : Owner) (h : Nat) : Prop := h < s.next ∧ s.closed h = 0

instance (s : Owner) (h : Nat) : Decidable (s.isOpen h) :=
  inferInstanceAs (Decidable (_ ∧ _))

/-- `_zk_handle = zookeeper_init(...)`. The client copies the id that
`_zk_clientid` points at. -/
def init (s : Owner) : Init → Owner
  | .handle =>
    let fresh := { zookeeper_init s.expected_session_timeout with
      client_id := s.clientid.bind fun k => (s.zh k).client_id }
    { s with handle := some s.next, next := s.next + 1, zh := Function.update s.zh s.next fresh,
             down := Function.update s.down s.next false }
  | .null _ _ => { s with handle := none }

def EINVAL : Int := 22

def nodesEmpty : Exn :=
  .cexception
    { errmsg := str "parameter[zk_nodes] of connect_zookeeper is empty", errcode := EINVAL,
      line := 180 }

def connectFailed (zk_nodes : Str) (errno : Int) (text : Str) : Exn :=
  .cexception
    { errmsg := str "connect nodes://" ++ zk_nodes ++ str " failed: " ++ text, errcode := errno,
      line := 193 }

def closeFailed (zk_nodes : Str) (errcode : Int) : Exn :=
  .cexception
    { errmsg := str "close nodes://" ++ zk_nodes ++ str " failed: " ++ zerror errcode, errcode,
      line := 208 }

/-- The assignments before `zookeeper_init`. -/
def setNodes (s : Owner) (zk_nodes : Str) (session_timeout_seconds : Int) : Owner :=
  { s with expected_session_timeout := toInt (session_timeout_seconds * 1000), zk_nodes }

/-- `create_session`: it does not look at the handle that the object has. -/
def create_session (s : Owner) (zk_nodes : Str) (session_timeout_seconds : Int) (i : Init) :
    Except Exn Unit × Owner :=
  if zk_nodes = [] then (.error nodesEmpty, s)
  else
    let s := s.setNodes zk_nodes session_timeout_seconds
    match i with
    | .handle => (.ok (), s.init i)
    | .null errno text => (.error (connectFailed zk_nodes errno text), s.init i)

/-- `close_session`. `rc` is what `zookeeper_close` returns. It has released the
handle in any case. -/
def close_session (s : Owner) (rc : Int) : Except Exn Unit × Owner :=
  match s.handle with
  | none => (.ok (), s)
  | some h =>
    let s := { s with closed := Function.update s.closed h (s.closed h + 1) }
    if rc ≠ ZOK then (.error (closeFailed s.zk_nodes rc), s)
    else (.ok (), { s with handle := none, clientid := none })

/-- `recreate_session`: the exception of `close_session` passes through. -/
def recreate_session (s : Owner) (rc : Int) (i : Init) : Except Exn Unit × Owner :=
  match s.close_session rc with
  | (.error e, s) => (.error e, s)
  | (.ok _, s) =>
    match i with
    | .handle => (.ok (), s.init i)
    | .null errno text => (.error (reconnectFailed s.zk_nodes errno text), s.init i)

/-- The destructor -/
def destructor (s : Owner) (rc : Int) : Except Exn Unit × Owner := s.close_session rc

/-- The callback of a session event of `h`. It goes through `_zk_handle`, and a
CONNECTED event reads the timeout there: with a null handle the process is
gone. -/
def callback (s : Owner) (h : Nat) : ZooState → Option Owner
  | .connected =>
    match s.handle with
    | some k => some { s with clientid := some k, physical_session_timeout := (s.zh k).recv_timeout,
                              start_connect_time := 0, down := Function.update s.down h false }
    | none => none
  | .connecting =>
    some { s with start_connect_time := s.now, down := Function.update s.down h true }
  | _ => some s

inductive Label
  | create_session (zk_nodes : Str) (session_timeout_seconds : Int) (i : Init)
  | close_session (rc : Int)
  | recreate_session (rc : Int) (i : Init)
  /-- the completion thread of `h` has a session event -/
  | callback (h : Nat) (e : ZooState)
  /-- the I/O thread of `h` -/
  | io (h : Nat) (z : Handle)
  | tick (n : Nat)
deriving DecidableEq, Repr

/-- Whether an operation returned or threw, the object is what it left. -/
def step (s : Owner) : Label → Option Owner
  | .create_session zk_nodes secs i => some (s.create_session zk_nodes secs i).2
  | .close_session rc => some (s.close_session rc).2
  | .recreate_session rc i => some (s.recreate_session rc i).2
  | .callback h e => if s.isOpen h then s.callback h e else none
  | .io h z => if s.isOpen h then some { s with zh := Function.update s.zh h z } else none
  | .tick n => some { s with now := s.now + n }

/-- The constructor, at some time of the clock. -/
def start (now : Int) : Owner :=
  { handle := none, clientid := none, zk_nodes := [], expected_session_timeout := 10,
    physical_session_timeout := 0, start_connect_time := 0, now, next := 0,
    zh := fun _ => Handle.null, closed := fun _ => 0, down := fun _ => false }

def system : System Owner Label where
  start s := ∃ now, s = start now
  step := step

/-! ## What each operation leaves -/

section
variable {s : Owner} {i : Init} {rc : Int}

theorem create_session_empty {secs : Int} : (s.create_session [] secs i).2 = s := rfl

theorem create_session_nodes {zk_nodes : Str} {secs : Int} (h : zk_nodes ≠ []) :
    (s.create_session zk_nodes secs i).2 = (s.setNodes zk_nodes secs).init i := by
  unfold create_session
  rw [if_neg h]
  cases i <;> rfl

theorem close_session_null (h : s.handle = none) : s.close_session rc = (.ok (), s) := by
  simp only [close_session, h]

theorem close_session_ok {k : Nat} (h : s.handle = some k) :
    s.close_session ZOK = (.ok (), { s with
      closed := Function.update s.closed k (s.closed k + 1), handle := none, clientid := none }) := by
  simp [close_session, h]

theorem close_session_fails {k : Nat} (h : s.handle = some k) (hrc : rc ≠ ZOK) :
    s.close_session rc = (.error (closeFailed s.zk_nodes rc), { s with
      closed := Function.update s.closed k (s.closed k + 1) }) := by
  simp [close_session, h, hrc]

/-- A close that returns leaves no handle. -/
theorem close_session_returns {t : Owner} (h : s.close_session rc = (.ok (), t)) :
    t.handle = none ∧ (s.handle = none ∨ rc = ZOK) := by
  unfold close_session at h
  split at h
  · rename_i hn
    cases h
    exact ⟨hn, Or.inl hn⟩
  · split at h
    · cases h
    · rename_i hrc
      cases h
      exact ⟨rfl, Or.inr (not_not.mp hrc)⟩

/-- After a close that returns, `recreate_session` makes a handle. -/
theorem recreate_session_ok {t : Owner} (h : s.close_session rc = (.ok (), t)) :
    (s.recreate_session rc i).2 = t.init i := by
  unfold recreate_session
  rw [h]
  cases i <;> rfl

theorem recreate_session_fails {t : Owner} {e : Exn} (h : s.close_session rc = (.error e, t)) :
    (s.recreate_session rc i).2 = t := by
  unfold recreate_session
  rw [h]

end

/-! ## Who has a handle -/

/-- The open handles are the one that the object has, and the client id is the
one inside that handle. -/
structure Owned (s : Owner) : Prop where
  handle : ∀ h, s.isOpen h ↔ s.handle = some h
  clientid : ∀ k, s.clientid = some k → s.handle = some k

/-- No handle was closed twice, and none before it was made. -/
structure Counted (s : Owner) : Prop where
  once : ∀ h, s.closed h ≤ 1
  fresh : ∀ h, s.next ≤ h → s.closed h = 0

/-- A session is made only on an object that has none, and
`zookeeper_close` succeeds. -/
def Keeps (s : Owner) : Label → Prop
  | .create_session zk_nodes _ _ => zk_nodes = [] ∨ s.handle = none
  | .close_session rc | .recreate_session rc _ => s.handle = none ∨ rc = ZOK
  | _ => True

instance (s : Owner) : (l : Label) → Decidable (Keeps s l)
  | .create_session _ _ _ | .close_session _ | .recreate_session _ _ =>
    inferInstanceAs (Decidable (_ ∨ _))
  | .callback _ _ | .io _ _ | .tick _ => inferInstanceAs (Decidable True)

theorem Owned.setNodes {s : Owner} (h : Owned s) (zk_nodes : Str) (secs : Int) :
    Owned (s.setNodes zk_nodes secs) := ⟨h.handle, h.clientid⟩

theorem Counted.setNodes {s : Owner} (hc : Counted s) (zk_nodes : Str) (secs : Int) :
    Counted (s.setNodes zk_nodes secs) := ⟨hc.once, hc.fresh⟩

theorem Owned.quiet {s : Owner} (h : Owned s) (hn : s.handle = none) (k : Nat) : ¬ s.isOpen k := by
  rw [h.handle, hn]
  exact nofun

theorem Owned.no_clientid {s : Owner} (h : Owned s) (hn : s.handle = none) : s.clientid = none := by
  rw [Option.eq_none_iff_forall_ne_some]
  intro k hk
  have := h.clientid k hk
  rw [hn] at this
  cases this

/-- A new handle on an object that has none. -/
theorem Owned.init {s : Owner} (h : Owned s) (hc : Counted s) (hn : s.handle = none) (i : Init) :
    Owned (s.init i) := by
  have hid := h.no_clientid hn
  cases i with
  | null errno text =>
    refine ⟨fun k => ⟨fun hk => absurd hk (h.quiet hn k), nofun⟩, fun k hk => ?_⟩
    simp only [Owner.init, hid, reduceCtorEq] at hk
  | handle =>
    refine ⟨fun k => ?_, fun k hk => ?_⟩
    · simp only [Owner.init, isOpen, Option.some.injEq]
      constructor
      · rintro ⟨hk, h0⟩
        by_contra hne
        exact h.quiet hn k ⟨by omega, h0⟩
      · rintro rfl
        exact ⟨by omega, hc.fresh _ (Nat.le_refl _)⟩
    · simp only [Owner.init, hid, reduceCtorEq] at hk

/-- A handle that is written over stays open. -/
theorem Owned.not_init {s : Owner} (h : Owned s) {k : Nat} (hk : s.handle = some k) (i : Init) :
    ¬ Owned (s.init i) := by
  intro h'
  obtain ⟨hlt, h0⟩ := (h.handle k).mpr hk
  cases i with
  | null errno text => cases (h'.handle k).mp ⟨hlt, h0⟩
  | handle =>
    have := (h'.handle k).mp ⟨Nat.lt_succ_of_lt hlt, h0⟩
    simp only [Owner.init, Option.some.injEq] at this
    omega

theorem Owned.closes {s : Owner} (h : Owned s) {k : Nat} (hk : s.handle = some k) :
    Owned { s with closed := Function.update s.closed k (s.closed k + 1), handle := none,
                   clientid := none } := by
  refine ⟨fun j => ⟨fun ⟨hlt, h0⟩ => ?_, nofun⟩, nofun⟩
  by_cases hjk : j = k
  · subst hjk
    simp at h0
  · simp only [Function.update_of_ne hjk] at h0
    have := (h.handle j).mp ⟨hlt, h0⟩
    rw [hk] at this
    cases this
    exact absurd rfl hjk

theorem not_owned_after_failed_close {s : Owner} {k : Nat} (hk : s.handle = some k) :
    ¬ Owned { s with closed := Function.update s.closed k (s.closed k + 1) } := by
  intro h
  have := (h.handle k).mpr hk
  simp [isOpen] at this

/-- The handle that the object has was not closed before. -/
theorem Counted.closes {s : Owner} (hc : Counted s) (h : Owned s) {k : Nat}
    (hk : s.handle = some k) :
    (∀ j, Function.update s.closed k (s.closed k + 1) j ≤ 1) ∧
      ∀ j, s.next ≤ j → Function.update s.closed k (s.closed k + 1) j = 0 := by
  obtain ⟨hlt, h0⟩ := (h.handle k).mpr hk
  constructor
  · intro j
    by_cases hjk : j = k
    · subst hjk
      simp [h0]
    · simpa [Function.update_of_ne hjk] using hc.once j
  · intro j hj
    have hjk : j ≠ k := by omega
    simpa [Function.update_of_ne hjk] using hc.fresh j hj

theorem Counted.init {s : Owner} (hc : Counted s) (i : Init) : Counted (s.init i) := by
  cases i with
  | null errno text => exact ⟨hc.once, hc.fresh⟩
  | handle => exact ⟨hc.once, fun k hk => hc.fresh k (Nat.le_of_succ_le hk)⟩

theorem Counted.close_session {s : Owner} (hc : Counted s) (h : Owned s) (rc : Int) :
    Counted (s.close_session rc).2 := by
  cases hk : s.handle with
  | none =>
    rw [close_session_null hk]
    exact hc
  | some k =>
    obtain ⟨h1, h2⟩ := hc.closes h hk
    by_cases hrc : rc = ZOK
    · subst hrc
      rw [close_session_ok hk]
      exact ⟨h1, h2⟩
    · rw [close_session_fails hk hrc]
      exact ⟨h1, h2⟩

/-- Only the threads of an open handle run. -/
theorem step_callback {s s' : Owner} {h : Nat} {e : ZooState}
    (hs : s.step (.callback h e) = some s') : s.isOpen h ∧ s.callback h e = some s' := by
  simp only [step] at hs
  split at hs
  · rename_i ho
    exact ⟨ho, hs⟩
  · cases hs

theorem step_io {s s' : Owner} {h : Nat} {z : Handle} (hs : s.step (.io h z) = some s') :
    s' = { s with zh := Function.update s.zh h z } := by
  simp only [step] at hs
  split at hs
  · cases hs
    rfl
  · cases hs

theorem callback_frame {s s' : Owner} {h : Nat} {e : ZooState} (hs : s.callback h e = some s') :
    s'.handle = s.handle ∧ s'.next = s.next ∧ s'.closed = s.closed ∧ s'.now = s.now ∧
      (s'.clientid = s.clientid ∨ s'.clientid = s.handle) := by
  unfold callback at hs
  split at hs
  · split at hs
    · rename_i k hk
      cases hs
      exact ⟨rfl, rfl, rfl, rfl, Or.inr hk.symm⟩
    · cases hs
  · cases hs
    exact ⟨rfl, rfl, rfl, rfl, Or.inl rfl⟩
  · cases hs
    exact ⟨rfl, rfl, rfl, rfl, Or.inl rfl⟩

/-- Every step out of a state in which the object has its handle keeps the
count. -/
theorem counted_step {s s' : Owner} {l : Label} (h : Owned s) (hc : Counted s)
    (hs : s.step l = some s') : Counted s' := by
  cases l with
  | create_session zk_nodes secs i =>
    cases hs
    by_cases hz : zk_nodes = []
    · subst hz
      exact hc
    · rw [create_session_nodes hz]
      exact (hc.setNodes zk_nodes secs).init i
  | close_session rc =>
    cases hs
    exact hc.close_session h rc
  | recreate_session rc i =>
    cases hs
    have hclose := hc.close_session h rc
    cases he : s.close_session rc with
    | mk r t =>
      rw [he] at hclose
      cases r with
      | error e => rwa [recreate_session_fails he]
      | ok _ =>
        rw [recreate_session_ok he]
        exact hclose.init i
  | callback k e =>
    obtain ⟨_, hn, hcl, _⟩ := callback_frame (step_callback hs).2
    exact ⟨by rw [hcl]; exact hc.once, by rw [hn, hcl]; exact hc.fresh⟩
  | io k z =>
    rw [step_io hs]
    exact ⟨hc.once, hc.fresh⟩
  | tick n =>
    cases hs
    exact ⟨hc.once, hc.fresh⟩

theorem owned_close_session {s : Owner} (h : Owned s) (rc : Int) :
    Owned (s.close_session rc).2 ↔ s.handle = none ∨ rc = ZOK := by
  cases hk : s.handle with
  | none =>
    rw [close_session_null hk]
    simp [h]
  | some k =>
    by_cases hrc : rc = ZOK
    · subst hrc
      rw [close_session_ok hk]
      simp [h.closes hk]
    · rw [close_session_fails hk hrc]
      simp [hrc, not_owned_after_failed_close hk]

/-- A step keeps the object the owner of its handle exactly when it meets the
condition. -/
theorem owned_step {s s' : Owner} {l : Label} (h : Owned s) (hc : Counted s)
    (hs : s.step l = some s') : Owned s' ↔ Keeps s l := by
  cases l with
  | create_session zk_nodes secs i =>
    cases hs
    by_cases hz : zk_nodes = []
    · subst hz
      simp [Keeps, create_session_empty, h]
    · rw [create_session_nodes hz]
      simp only [Keeps, hz, false_or]
      cases hk : s.handle with
      | none =>
        exact iff_of_true ((h.setNodes zk_nodes secs).init (hc.setNodes zk_nodes secs) hk i) rfl
      | some k => exact iff_of_false ((h.setNodes zk_nodes secs).not_init hk i) nofun
  | close_session rc =>
    cases hs
    exact owned_close_session h rc
  | recreate_session rc i =>
    cases hs
    have hclose := owned_close_session h rc
    have hcount := hc.close_session h rc
    cases he : s.close_session rc with
    | mk r t =>
      rw [he] at hclose hcount
      cases r with
      | error e =>
        rw [recreate_session_fails he]
        exact hclose
      | ok _ =>
        obtain ⟨ht, hk⟩ := close_session_returns he
        rw [recreate_session_ok he]
        exact iff_of_true ((hclose.mpr hk).init hcount ht i) hk
  | callback k e =>
    obtain ⟨hh, hn, hcl, _, hid⟩ := callback_frame (step_callback hs).2
    refine iff_of_true ⟨fun j => ?_, fun j hj => ?_⟩ trivial
    · rw [isOpen, hn, hcl, hh]
      exact h.handle j
    · rw [hh]
      rcases hid with hid | hid
      · exact h.clientid j (hid ▸ hj)
      · exact hid ▸ hj
  | io k z =>
    rw [step_io hs]
    exact iff_of_true ⟨h.handle, h.clientid⟩ trivial
  | tick n =>
    cases hs
    exact iff_of_true ⟨h.handle, h.clientid⟩ trivial

theorem owned_start (now : Int) : Owned (start now) ∧ Counted (start now) := by
  refine ⟨⟨fun h => ⟨fun hh => ?_, nofun⟩, nofun⟩, fun _ => Nat.zero_le _, fun _ _ => rfl⟩
  exact absurd hh.1 (Nat.not_lt_zero h)

theorem reach_owned {s : Owner} (h : system.ReachBy Keeps s) : Owned s ∧ Counted s := by
  apply System.ReachBy.invariant (P := fun s => Owned s ∧ Counted s) _ _ h
  · rintro s ⟨now, rfl⟩
    exact owned_start now
  · intro s l s' hp hg hs
    exact ⟨(owned_step hp.1 hp.2 hs).mpr hg, counted_step hp.1 hp.2 hs⟩

/-- Whatever `zookeeper_close` returns, the destructor leaves no handle open. -/
theorem Owned.destructor {s : Owner} (h : Owned s) (hc : Counted s) (rc : Int) {j : Nat}
    (hj : j < s.next) : (s.destructor rc).2.closed j = 1 := by
  have hother : s.handle ≠ some j → s.closed j = 1 := by
    intro hne
    have h0 : s.closed j ≠ 0 := fun h0 => hne ((h.handle j).mp ⟨hj, h0⟩)
    have h1 := hc.once j
    omega
  unfold Owner.destructor
  cases hk : s.handle with
  | none =>
    rw [close_session_null hk]
    exact hother (by simp [hk])
  | some k =>
    have hcl : (s.close_session rc).2.closed = Function.update s.closed k (s.closed k + 1) := by
      by_cases hrc : rc = ZOK
      · subst hrc
        rw [close_session_ok hk]
      · rw [close_session_fails hk hrc]
    rw [hcl]
    by_cases hjk : j = k
    · subst hjk
      simp [((h.handle j).mpr hk).2]
    · rw [Function.update_of_ne hjk]
      exact hother (by simpa [hk] using Ne.symm hjk)

/-- For every sequence of operations, callbacks and outcomes: the object has its
handle after every step exactly when no session is made over another one and
no close fails. The destructor then leaves every handle closed exactly once. -/
theorem handles_are_owned_iff {now : Int} {ls : List Label} {t : Owner}
    (hr : system.run (start now) ls = some t) :
    (system.Along Owned (start now) ls ↔ system.Meets Keeps (start now) ls) ∧
    (system.Meets Keeps (start now) ls → ∀ rc h, h < t.next →
      (t.destructor rc).2.closed h = 1) := by
  have h0 := owned_start now
  constructor
  · rw [System.along_and_iff (fun _ _ _ => counted_step) h0.2]
    refine System.along_iff_meets ?_ h0 hr
    intro s l s' hp hs
    rw [← owned_step hp.1 hp.2 hs]
    exact and_iff_left (counted_step hp.1 hp.2 hs)
  · intro hm rc h hh
    have ht := reach_owned (System.ReachBy.run (.start ⟨now, rfl⟩) hm hr)
    exact ht.1.destructor ht.2 rc hh

def localhost : Str := str "127.0.0.1:2181"

/-- A session that is opened, lost at a second attempt, and opened again. -/
def reopens : List Label :=
  [.create_session localhost 10 .handle, .callback 0 .connected, .recreate_session ZOK (.null 12 []),
   .recreate_session ZOK .handle, .callback 1 .connected]

theorem handles_are_owned_of_reopens : ∃ t, system.run (start 1000) reopens = some t ∧ t.next = 2 ∧
    system.Along Owned (start 1000) reopens ∧
    ∀ h, h < t.next → (t.destructor ZOK).2.closed h = 1 := by
  obtain ⟨t, hr, ht⟩ := (Option.any_eq_true _ _).mp
    (show (system.runBy Keeps (start 1000) reopens).any (fun t => t.next == 2) = true by decide)
  obtain ⟨hm, hr⟩ := System.runBy_eq_some_iff.mp hr
  obtain ⟨h1, h2⟩ := handles_are_owned_iff hr
  exact ⟨t, hr, by simpa using ht, h1.mpr hm, h2 hm ZOK⟩

/-- A second `create_session` on a connected object: the first handle stays
open for good, and the second one takes over its session. With a
`zookeeper_close` that fails it is the other way round: the object keeps a
handle that is released, and the destructor closes it once more. -/
theorem a_handle_is_leaked_or_closed_twice :
    (∃ s, system.Reach s ∧ ¬ Owned s ∧ s.handle = some 1 ∧ (s.zh 1).client_id = some 7 ∧
      (s.destructor ZOK).2.closed 0 = 0) ∧
    ∃ s, system.Reach s ∧ ¬ Owned s ∧ (s.destructor ZOK).2.closed 0 = 2 := by
  constructor
  · obtain ⟨s, hs, ht⟩ := System.Reach.of_run (M := system) (s := start 1000)
      ([.create_session localhost 10 .handle,
        .io 0 { zookeeper_init 10000 with state := .connected, client_id := some 7 },
        .callback 0 .connected, .create_session localhost 10 .handle])
      (fun s => s.handle == some 1 && (s.zh 1).client_id == some 7 &&
        (s.destructor ZOK).2.closed 0 == 0 && decide (s.isOpen 0))
      ⟨1000, rfl⟩ (by decide)
    simp only [Bool.and_eq_true, beq_iff_eq, decide_eq_true_eq] at ht
    obtain ⟨⟨⟨h1, h2⟩, h3⟩, h4⟩ := ht
    refine ⟨s, hs, fun h => ?_, h1, h2, h3⟩
    have h0 := (h.handle 0).mp h4
    rw [h1] at h0
    cases h0
  · obtain ⟨s, hs, ht⟩ := System.Reach.of_run (M := system) (s := start 1000)
      ([.create_session localhost 10 .handle, .callback 0 .connected,
        .recreate_session ZCONNECTIONLOSS .handle])
      (fun s => s.handle == some 0 && s.closed 0 == 1 && (s.destructor ZOK).2.closed 0 == 2)
      ⟨1000, rfl⟩ (by decide)
    simp only [Bool.and_eq_true, beq_iff_eq] at ht
    obtain ⟨⟨h1, h2⟩, h3⟩ := ht
    refine ⟨s, hs, fun h => ?_, h3⟩
    have h0 := ((h.handle 0).mpr h1).2
    omega

/-! ## What the local test says -/

/-- `is_session_expired` of the object. `zoo_state` takes a null handle, and
`zoo_recv_timeout` does not: `none` is a null dereference. -/
def is_session_expired (s : Owner) : Option Bool :=
  match s.handle with
  | some h => some (ZookZhubei.is_session_expired (s.zh h).state s.start_connect_time s.now
      (s.zh h).recv_timeout)
  | none =>
    if s.start_connect_time > 0 then
      if s.now > s.start_connect_time then none else some false
    else some false

/-- The test comes to an answer, and an answer of true is about the session of
the handle that the object has. -/
def Sound (s : Owner) : Prop :=
  ∃ b, s.is_session_expired = some b ∧
    (b = true → ∃ h, s.handle = some h ∧ ((s.zh h).state = .expired ∨ s.down h = true))

/-- No session is closed or replaced while its connection is down. -/
def Settled (s : Owner) (l : Label) : Prop :=
  Keeps s l ∧ match l with
    | .close_session _ | .recreate_session _ _ => s.handle = none ∨ s.start_connect_time ≤ 0
    | _ => True

instance (s : Owner) : (l : Label) → Decidable (Settled s l)
  | .close_session _ | .recreate_session _ _ =>
    inferInstanceAs (Decidable (_ ∧ (_ ∨ _)))
  | .create_session _ _ _ | .callback _ _ | .io _ _ | .tick _ =>
    inferInstanceAs (Decidable (_ ∧ True))

/-- The local count belongs to the handle that the object has. -/
structure Current (s : Owner) : Prop where
  down : 0 < s.start_connect_time → ∃ h, s.handle = some h ∧ s.down h = true
  clock : s.start_connect_time ≤ 0 ∨ s.start_connect_time ≤ s.now
  timeout : s.expected_session_timeout < 2 ^ 31

theorem Current.sound {s : Owner} (h : Current s) : Sound s := by
  unfold Sound is_session_expired
  cases hk : s.handle with
  | some k =>
    refine ⟨_, rfl, fun hb => ⟨k, rfl, ?_⟩⟩
    by_cases he : (s.zh k).state = .expired
    · exact Or.inl he
    · right
      by_cases h0 : 0 < s.start_connect_time
      · obtain ⟨j, hj, hd⟩ := h.down h0
        rw [hk] at hj
        cases hj
        exact hd
      · simp [ZookZhubei.is_session_expired, he, h0] at hb
  | none =>
    have h0 : ¬ s.start_connect_time > 0 := by
      intro h0
      obtain ⟨j, hj, _⟩ := h.down h0
      rw [hk] at hj
      cases hj
    simp only [h0, if_false]
    exact ⟨false, rfl, nofun⟩

/-- An object without a handle counts nothing. -/
theorem Current.at_rest {s : Owner} (h : Current s) (hn : s.handle = none) :
    s.start_connect_time ≤ 0 := by
  by_contra h0
  obtain ⟨k, hk, _⟩ := h.down (by omega)
  rw [hn] at hk
  cases hk

/-- The members may change in any way while nothing is counted. -/
theorem Current.of_rest {s : Owner} (h0 : s.start_connect_time ≤ 0)
    (ht : s.expected_session_timeout < 2 ^ 31) : Current s :=
  ⟨fun h => absurd h (by omega), Or.inl h0, ht⟩

theorem init_frame (s : Owner) (i : Init) :
    (s.init i).start_connect_time = s.start_connect_time ∧
      (s.init i).expected_session_timeout = s.expected_session_timeout ∧
      (s.init i).now = s.now := by
  cases i <;> exact ⟨rfl, rfl, rfl⟩

theorem close_session_frame (s : Owner) (rc : Int) :
    (s.close_session rc).2.start_connect_time = s.start_connect_time ∧
      (s.close_session rc).2.expected_session_timeout = s.expected_session_timeout ∧
      (s.close_session rc).2.now = s.now := by
  unfold close_session
  split
  · exact ⟨rfl, rfl, rfl⟩
  · split <;> exact ⟨rfl, rfl, rfl⟩

/-- Neither a close nor a new handle starts or stops the count. -/
theorem recreate_session_frame (s : Owner) (rc : Int) (i : Init) :
    (s.recreate_session rc i).2.start_connect_time = s.start_connect_time ∧
      (s.recreate_session rc i).2.expected_session_timeout = s.expected_session_timeout ∧
      (s.recreate_session rc i).2.now = s.now := by
  have hclose := close_session_frame s rc
  cases he : s.close_session rc with
  | mk r t =>
    rw [he] at hclose
    cases r with
    | error e => rwa [recreate_session_fails he]
    | ok _ =>
      rw [recreate_session_ok he]
      obtain ⟨h1, h2, h3⟩ := init_frame t i
      exact ⟨h1.trans hclose.1, h2.trans hclose.2.1, h3.trans hclose.2.2⟩

theorem Current.callback {s s' : Owner} (h : Current s) {k : Nat} {e : ZooState}
    (hk : s.handle = some k) (hs : s.callback k e = some s') : Current s' := by
  unfold Owner.callback at hs
  split at hs
  · rw [hk] at hs
    cases hs
    exact .of_rest (Int.le_refl 0) h.timeout
  · cases hs
    exact ⟨fun _ => ⟨k, hk, by simp⟩, Or.inr (Int.le_refl _), h.timeout⟩
  · cases hs
    exact h

theorem current_step {s s' : Owner} {l : Label} (ho : Owned s) (h : Current s) (hg : Settled s l)
    (hs : s.step l = some s') : Current s' := by
  cases l with
  | create_session zk_nodes secs i =>
    cases hs
    by_cases hz : zk_nodes = []
    · subst hz
      exact h
    · have hn : s.handle = none := hg.1.resolve_left hz
      obtain ⟨h1, h2, _⟩ := init_frame (s.setNodes zk_nodes secs) i
      rw [create_session_nodes hz]
      refine .of_rest (h1 ▸ h.at_rest hn) ?_
      rw [h2]
      exact Int.bmod_lt (by decide)
  | close_session rc =>
    cases hs
    obtain ⟨h1, h2, _⟩ := close_session_frame s rc
    have h0 : s.start_connect_time ≤ 0 := hg.2.elim h.at_rest id
    exact .of_rest (h1 ▸ h0) (h2 ▸ h.timeout)
  | recreate_session rc i =>
    cases hs
    obtain ⟨h1, h2, _⟩ := recreate_session_frame s rc i
    have h0 : s.start_connect_time ≤ 0 := hg.2.elim h.at_rest id
    exact .of_rest (h1 ▸ h0) (h2 ▸ h.timeout)
  | callback k e =>
    obtain ⟨hk, hcb⟩ := step_callback hs
    exact h.callback ((ho.handle k).mp hk) hcb
  | io k z =>
    rw [step_io hs]
    exact ⟨h.down, h.clock, h.timeout⟩
  | tick n =>
    cases hs
    refine ⟨h.down, ?_, h.timeout⟩
    rcases h.clock with h0 | h0
    · exact Or.inl h0
    · exact Or.inr (by simp only; omega)

theorem reach_current {s : Owner} (h : system.ReachBy Settled s) : Current s := by
  apply System.ReachBy.invariant_with (Q := Owned) (P := Current) _ _ _ h
  · intro s hs
    exact (reach_owned (hs.mono fun _ _ hg => hg.1)).1
  · rintro s ⟨now, rfl⟩
    exact .of_rest (Int.le_refl 0) (show (10 : Int) < 2 ^ 31 by decide)
  · intro s l s' ho hp hg hs
    exact current_step ho hp hg hs

/-! ## A count that outlives its session -/

/-- There is a wait after which the count, as an `int`, is at its largest. -/
theorem exists_largest_count {now start : Int} (hle : start ≤ now) :
    ∃ n : Nat, start < now + n ∧ toInt (now + n - start) = 2 ^ 31 - 1 := by
  have hq := Int.emod_add_mul_ediv (2 ^ 31 - 1 - (now - start)) (2 ^ 32)
  have hnn := Int.emod_nonneg (2 ^ 31 - 1 - (now - start)) (show (2 ^ 32 : Int) ≠ 0 by decide)
  generalize (2 ^ 31 - 1 - (now - start)) / 2 ^ 32 = q at hq
  generalize (2 ^ 31 - 1 - (now - start)) % 2 ^ 32 = n at hq hnn
  have hcount : now + n.toNat - start = 2 ^ 31 - 1 + ((2 ^ 32 : Nat) : Int) * (-q) := by
    omega
  refine ⟨n.toNat, by omega, ?_⟩
  rw [toInt, hcount, Int.add_mul_bmod_self_left]
  rfl

section
variable {s : Owner} (h0 : 0 < s.start_connect_time) (hle : s.start_connect_time ≤ s.now)
include h0 hle

/-- Without a handle, the test goes wrong as soon as the clock moves on. -/
theorem unsound_null (hn : s.handle = none) :
    ∃ n s', s.step (.tick n) = some s' ∧ ¬ Sound s' := by
  refine ⟨1, _, rfl, ?_⟩
  rintro ⟨b, hb, _⟩
  have hlt : s.now + 1 > s.start_connect_time := by omega
  simp [is_session_expired, hn, h0, hlt] at hb

/-- A new handle is given up for the outage of the one before it. -/
theorem unsound_fresh {k : Nat} (hk : s.handle = some k) (hst : (s.zh k).state ≠ .expired)
    (hd : s.down k = false) (ht : (s.zh k).recv_timeout < 2 ^ 31) :
    ∃ n s', s.step (.tick n) = some s' ∧ ¬ Sound s' := by
  obtain ⟨n, hlt, hcount⟩ := exists_largest_count hle
  refine ⟨n, _, rfl, ?_⟩
  rintro ⟨b, hb, hsound⟩
  have hdiv : (s.zh k).recv_timeout.tdiv 1000 ≤ 2147483 :=
    Int.tdiv_le_tdiv (show (0 : Int) < 1000 by decide) (show _ ≤ 2147483647 by omega)
  have htrue : b = true := by
    simp only [is_session_expired, hk, ZookZhubei.is_session_expired, hst, if_false, gt_iff_lt, h0,
      if_true, hlt, hcount, Option.some.injEq] at hb
    rw [← hb, decide_eq_true_iff]
    omega
  obtain ⟨j, hj, hj'⟩ := hsound htrue
  have hjk : j = k := Option.some.inj ((show s.handle = some j from hj).symm.trans hk)
  subst hjk
  rcases hj' with hj' | hj'
  · exact hst hj'
  · rw [show s.down j = true from hj'] at hd
    cases hd

end

/-- A session that is closed or replaced while its connection is down leaves
its count behind, and waiting alone makes the test unsound. -/
theorem Current.late_close {s s' : Owner} (h : Current s) (h0 : 0 < s.start_connect_time)
    (hs : s.step (.close_session ZOK) = some s' ∨ ∃ i, s.step (.recreate_session ZOK i) = some s') :
    ∃ n s'', s'.step (.tick n) = some s'' ∧ ¬ Sound s'' := by
  obtain ⟨k, hk, _⟩ := h.down h0
  have hle : s.start_connect_time ≤ s.now := h.clock.resolve_left (by omega)
  have hclose := close_session_ok hk
  rcases hs with hs | ⟨i, hs⟩
  · simp only [step, hclose] at hs
    cases hs
    exact unsound_null h0 hle rfl
  · simp only [step, recreate_session_ok hclose] at hs
    cases hs
    cases i with
    | null errno text => exact unsound_null h0 hle rfl
    | handle =>
      refine unsound_fresh h0 hle (k := s.next) rfl ?_ ?_ ?_
      · simp [init, zookeeper_init]
      · simp [init]
      · simpa [init, zookeeper_init] using h.timeout

/-- Every verdict is about the session of the handle that the object has, in
every run that closes or replaces a session only while its connection is up,
makes no session over another one, and sees no close fail. A close at any other
time is followed by a wrong verdict, or by a null dereference. -/
theorem verdicts_concern_the_current_session {s : Owner} (hs : system.ReachBy Settled s) :
    Sound s ∧
    ∀ s', 0 < s.start_connect_time →
      system.step s (.close_session ZOK) = some s' ∨
        (∃ i, system.step s (.recreate_session ZOK i) = some s') →
      ∃ n s'', system.step s' (.tick n) = some s'' ∧ ¬ Sound s'' := by
  have h := reach_current hs
  refine ⟨h.sound, ?_⟩
  intro s' h0 hst
  exact h.late_close h0 hst

/-- A connection that is lost and comes back, and a session that is replaced
after that. -/
theorem verdicts_concern_the_current_session_of_reconnects :
    ∃ s, system.ReachBy Settled s ∧ s.handle = some 1 ∧ s.down 1 = true ∧
      s.is_session_expired = some true ∧ Sound s := by
  obtain ⟨s, hs, ht⟩ := System.ReachBy.of_run (M := system) (G := Settled) (s := start 1000)
    ([.create_session localhost 10 .handle, .callback 0 .connected, .callback 0 .connecting,
      .tick 3, .callback 0 .connected, .recreate_session ZOK .handle, .callback 1 .connected,
      .callback 1 .connecting, .tick 11])
    (fun s => s.handle == some 1 && s.down 1 && s.is_session_expired == some true)
    (.start ⟨1000, rfl⟩) (by decide)
  simp only [Bool.and_eq_true, beq_iff_eq] at ht
  obtain ⟨⟨h1, h2⟩, h3⟩ := ht
  exact ⟨s, hs, h1, h2, h3, (verdicts_concern_the_current_session hs).1⟩

/-- The connection is lost, and the session is replaced before it is back. Ten
seconds after the loss the new session is given up, with no callback of its
own; had the new handle been null, the test would have gone through it. -/
theorem a_new_session_is_given_up_for_the_old_one :
    (∃ s, system.Reach s ∧ s.handle = some 1 ∧ s.is_session_expired = some true ∧
      (s.zh 1).state = .notConnected ∧ s.down 1 = false ∧ ¬ Sound s) ∧
    ∃ s, system.Reach s ∧ s.handle = none ∧ s.is_session_expired = none ∧ ¬ Sound s := by
  constructor
  · obtain ⟨s, hs, ht⟩ := System.Reach.of_run (M := system) (s := start 1000)
      ([.create_session localhost 10 .handle, .callback 0 .connected, .callback 0 .connecting,
        .recreate_session ZOK .handle, .tick 10])
      (fun s => s.handle == some 1 && s.is_session_expired == some true &&
        (s.zh 1).state == .notConnected && !s.down 1)
      ⟨1000, rfl⟩ (by decide)
    simp only [Bool.and_eq_true, beq_iff_eq, Bool.not_eq_true'] at ht
    obtain ⟨⟨⟨h1, h2⟩, h3⟩, h4⟩ := ht
    refine ⟨s, hs, h1, h2, h3, h4, ?_⟩
    rintro ⟨b, hb, hsound⟩
    rw [h2] at hb
    cases hb
    obtain ⟨h, hh, hd⟩ := hsound rfl
    rw [h1] at hh
    cases hh
    rcases hd with hd | hd
    · rw [h3] at hd
      cases hd
    · rw [h4] at hd
      cases hd
  · obtain ⟨s, hs, ht⟩ := System.Reach.of_run (M := system) (s := start 1000)
      ([.create_session localhost 10 .handle, .callback 0 .connected, .callback 0 .connecting,
        .close_session ZOK, .tick 1])
      (fun s => s.handle == none && s.is_session_expired == none)
      ⟨1000, rfl⟩ (by decide)
    simp only [Bool.and_eq_true, beq_iff_eq] at ht
    refine ⟨s, hs, ht.1, ht.2, ?_⟩
    rintro ⟨b, hb, _⟩
    rw [ht.2] at hb
    cases hb

end Owner

end ZookZhubei
