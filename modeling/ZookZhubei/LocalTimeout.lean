-- The two clocks of a session. The server counts from the last packet that
-- it heard, in milliseconds. The client counts from the moment at which it
-- noticed the loss, in whole seconds.
import ZookZhubei.Deployment
import ZookZhubei.Lifetime

namespace ZookZhubei

open Runs

/-! ## The timed model -/

/-- What a session callback does to `_start_connect_time`. -/
def connect_time (now start : Int) : ZooState → Int
  | .connected => 0
  | .connecting => now
  | _ => start

/-- `Inst.completion` sets the member in the same way. -/
theorem completion_connect_time {c : Config} {now : Int} {x x' : Inst} {e : ZooState}
    {es : List ZooState} (hcb : x.cb = .idle) (he : x.h.events = e :: es)
    (h : x.completion c now = some x') :
    x'.start_connect_time = connect_time now x.start_connect_time e := by
  simp only [Inst.completion, hcb, he] at h
  split at h <;> cases h <;> simp_all [connect_time]

/-- So does the callback of an object that may have no handle. -/
theorem callback_connect_time {s s' : Owner} {h : Nat} {e : ZooState}
    (hs : s.callback h e = some s') :
    s'.start_connect_time = connect_time s.now s.start_connect_time e := by
  unfold Owner.callback at hs
  split at hs
  · split at hs
    · cases hs
      rfl
    · cases hs
  · cases hs
    rfl
  · rename_i h1 h2
    cases hs
    cases e <;> first | rfl | contradiction

/-- One session, with all times in milliseconds. `lastHeard` is when the server
last received a packet of it, and `lastRecv` when the client last received
one. -/
structure Timed where
  now : Int
  h : Handle
  start_connect_time : Int
  lastHeard : Int
  lastRecv : Int
deriving DecidableEq, Repr

namespace Timed

/-- `time(NULL)` -/
def time (s : Timed) : Int := s.now / 1000

def timeout (s : Timed) : Int := s.h.recv_timeout

/-- The latest moment at which `zookeeper_interest` gives up the connection. -/
def patience (s : Timed) : Int := s.lastRecv + s.timeout * 2 / 3

/-- The callbacks of the events run at once. -/
def deliver (s : Timed) : Timed :=
  { s with h := { s.h with events := [] },
           start_connect_time := s.h.events.foldl (connect_time s.time) s.start_connect_time }

inductive Label
  | tick (n : Nat)
  /-- the server receives a packet of the session -/
  | heard
  /-- the client receives a packet -/
  | recv
  /-- the connection goes, or a new one does not come about -/
  | loss
  | dial
  | prime
  /-- the handshake gives the session back -/
  | resume (timeOut : Int)
  /-- the handshake says that the session has ended -/
  | expired
deriving DecidableEq, Repr

def step (s : Timed) : Label → Option Timed
  | .tick n =>
    if s.h.state = .connected → s.now + n ≤ s.patience then some { s with now := s.now + n }
    else none
  | .heard => some { s with lastHeard := s.now }
  | .recv => if s.h.state = .connected then some { s with lastRecv := s.now } else none
  | .loss =>
    if is_unrecoverable s.h.state = false then some { s with h := s.h.cleanup }.deliver else none
  | .dial => s.h.dial.map fun h => { s with h }
  | .prime => s.h.prime.map fun h => { s with h }
  | .resume timeOut =>
    match s.h.client_id with
    | some i =>
      if s.h.state = .associating ∧ 2000 ≤ timeOut ∧ timeOut < 2 ^ 31 then
        some { s with h := s.h.established i timeOut, lastRecv := s.now }.deliver
      else none
    | none => none
  | .expired => if s.h.state = .associating then some { s with h := s.h.expire }.deliver else none

/-- The runs start with a session that has just been opened, at a time after
the first second of the clock. -/
def system : System Timed Label where
  start s := 1000 ≤ s.now ∧ s.h.state = .connected ∧ s.h.events = [] ∧ 2000 ≤ s.timeout ∧
    s.timeout < 2 ^ 31 ∧ s.start_connect_time = 0 ∧ s.lastHeard ≤ s.now ∧ s.lastRecv = s.now
  step := step

/-- What `is_session_expired` answers to the loop of `work`. -/
def localExpiry (s : Timed) : Bool :=
  is_session_expired s.h.state s.start_connect_time s.time s.timeout

/-- A process that is not connected, and that still works, does so before the
server may end its session. -/
def Conservative (s : Timed) : Prop :=
  s.h.state ≠ .connected → s.localExpiry = false → s.now < s.lastHeard + s.timeout

/-- The loss is noticed soon enough after the last packet that the server
heard, and no outage takes 2^31 seconds. -/
def InTime (s : Timed) : Label → Prop
  | .loss => s.h.state = .connected → 1000 * (s.time + s.timeout / 1000) ≤ s.lastHeard + s.timeout
  | .tick n => s.h.state ≠ .connected → (s.now + n) / 1000 - s.start_connect_time < 2 ^ 31
  | _ => True

instance (s : Timed) : (l : Label) → Decidable (InTime s l)
  | .loss => inferInstanceAs (Decidable (_ → _))
  | .tick _ => inferInstanceAs (Decidable (_ → _))
  | .heard | .recv | .dial | .prime | .resume _ | .expired => inferInstanceAs (Decidable True)

/-! ## The local test -/

/-- In an outage of less than 2^31 seconds the test says false up to the whole
seconds of the timeout. -/
theorem is_session_expired_false_iff {state : ZooState} {start now timeout : Int}
    (hs : state ≠ .expired) (h0 : 0 < start) (hle : start ≤ now) (hlt : now - start < 2 ^ 31)
    (ht : 1000 ≤ timeout) :
    is_session_expired state start now timeout = false ↔ now < start + timeout / 1000 := by
  have hdiv : timeout.tdiv 1000 = timeout / 1000 := Int.tdiv_eq_ediv_of_nonneg (by omega)
  have hcast : toInt (now - start) = now - start := toInt_eq_self (by omega) hlt
  unfold is_session_expired
  rw [if_neg hs, if_pos h0, hdiv, hcast]
  split
  · simp only [decide_eq_false_iff_not]
    omega
  · simp only [true_iff]
    omega

/-! ## The invariant -/

/-- While the process is not connected, the whole seconds of the local count
end before the count of the server does. -/
structure Inv (s : Timed) : Prop where
  clock : 1000 ≤ s.now
  heard : s.lastHeard ≤ s.now
  timeout : 2000 ≤ s.timeout ∧ s.timeout < 2 ^ 31
  events : s.h.events = []
  down : s.h.state ≠ .connected → 0 < s.start_connect_time ∧ s.start_connect_time ≤ s.time ∧
    s.time - s.start_connect_time < 2 ^ 31 ∧
    1000 * (s.start_connect_time + s.timeout / 1000) ≤ s.lastHeard + s.timeout

theorem inv_start {s : Timed} (h : system.start s) : Inv s := by
  obtain ⟨h1, h2, h3, h4, h5, _, h7, _⟩ := h
  exact ⟨h1, h7, ⟨h4, h5⟩, h3, fun hn => absurd h2 hn⟩

/-- A step of the handle outside of a connection. -/
theorem Inv.moves {s : Timed} (h : Inv s) {st : ZooState} (hs : s.h.state ≠ .connected) :
    Inv { s with h := { s.h with state := st } } :=
  ⟨h.clock, h.heard, h.timeout, h.events, fun _ => h.down hs⟩

/-- Nothing stops the clock outside of a connection. -/
theorem step_tick {s : Timed} (hn : s.h.state ≠ .connected) (n : Nat) :
    s.step (.tick n) = some { s with now := s.now + n } := by
  simp [step, hn]

/-- The loss of a connection starts the local count. -/
theorem deliver_lost {s : Timed} (hc : s.h.state = .connected) (he : s.h.events = []) :
    ({ s with h := s.h.cleanup } : Timed).deliver =
      { s with h := { s.h with state := .closed }, start_connect_time := s.time } := by
  simp [deliver, Handle.cleanup, hc, he, is_unrecoverable, ZooState.code, connect_time, time]

/-- A loss outside of a connection tells nobody. -/
theorem deliver_lost_again {s : Timed} (hr : is_unrecoverable s.h.state = false)
    (hc : s.h.state ≠ .connected) (he : s.h.events = []) :
    ({ s with h := s.h.cleanup } : Timed).deliver =
      { s with h := { s.h with state := .closed } } := by
  have hclean : s.h.cleanup = { s.h with state := .closed } := by
    simp [Handle.cleanup, hr, hc]
  simp [deliver, hclean, he]

theorem step_tick_now {s s' : Timed} {n : Nat} (hs : s.step (.tick n) = some s') :
    s' = { s with now := s.now + n } := by
  simp only [step] at hs
  split at hs
  · cases hs
    rfl
  · cases hs

theorem step_recv {s s' : Timed} (hs : s.step .recv = some s') :
    s' = { s with lastRecv := s.now } := by
  simp only [step] at hs
  split at hs
  · cases hs
    rfl
  · cases hs

/-- A handshake ends the outage, with a timeout that the server chose. -/
theorem step_resume {s s' : Timed} {timeOut : Int} (hs : s.step (.resume timeOut) = some s') :
    s'.h.state = .connected ∧ s'.h.events = [] ∧ s'.timeout = timeOut ∧ 2000 ≤ timeOut ∧
      timeOut < 2 ^ 31 ∧ s'.now = s.now ∧ s'.lastHeard = s.lastHeard := by
  simp only [step] at hs
  split at hs
  · split at hs
    · rename_i ht
      cases hs
      exact ⟨rfl, rfl, rfl, ht.2.1, ht.2.2, rfl, rfl⟩
    · cases hs
  · cases hs

-- The steps of the handle outside of a connection.

theorem step_dial {s s' : Timed} (hs : s.step .dial = some s') :
    s.h.state ≠ .connected ∧ s' = { s with h := { s.h with state := .connecting } } := by
  simp only [step, Handle.dial, Option.map_eq_some_iff] at hs
  obtain ⟨h', hh, rfl⟩ := hs
  split at hh
  · rename_i hd
    cases hh
    exact ⟨by rcases hd with hd | hd <;> simp [hd], rfl⟩
  · cases hh

theorem step_prime {s s' : Timed} (hs : s.step .prime = some s') :
    s.h.state ≠ .connected ∧ s' = { s with h := { s.h with state := .associating } } := by
  simp only [step, Handle.prime, Option.map_eq_some_iff] at hs
  obtain ⟨h', hh, rfl⟩ := hs
  split at hh
  · rename_i hd
    cases hh
    exact ⟨by simp [hd], rfl⟩
  · cases hh

theorem step_expired {s s' : Timed} (he : s.h.events = []) (hs : s.step .expired = some s') :
    s.h.state ≠ .connected ∧ s' = { s with h := { s.h with state := .expired } } := by
  simp only [step] at hs
  split at hs
  · rename_i ha
    cases hs
    refine ⟨by simp [ha], ?_⟩
    simp [deliver, Handle.expire, Handle.cleanup, he, connect_time]
  · cases hs

theorem inv_loss {s s' : Timed} (h : Inv s) (hg : InTime s .loss) (hs : s.step .loss = some s') :
    Inv s' := by
  simp only [step] at hs
  split at hs
  · rename_i hr
    cases hs
    by_cases hc : s.h.state = .connected
    · rw [deliver_lost hc h.events]
      have ht : 0 < s.time := by
        have := h.clock
        unfold time
        omega
      refine ⟨h.clock, h.heard, h.timeout, h.events, fun _ => ⟨ht, Int.le_refl _, ?_, hg hc⟩⟩
      simp [time]
    · rw [deliver_lost_again hr hc h.events]
      exact h.moves hc
  · cases hs

theorem inv_step {s s' : Timed} {l : Label} (h : Inv s) (hg : InTime s l)
    (hs : s.step l = some s') : Inv s' := by
  cases l with
  | loss => exact inv_loss h hg hs
  | tick n =>
    rw [step_tick_now hs]
    have hle : s.time ≤ (s.now + n) / 1000 := Int.ediv_le_ediv (by decide) (by omega)
    refine ⟨by have := h.clock; simp only; omega, by have := h.heard; simp only; omega,
      h.timeout, h.events, fun hn => ?_⟩
    obtain ⟨h1, h2, _, h4⟩ := h.down hn
    exact ⟨h1, Int.le_trans h2 hle, hg hn, h4⟩
  | heard =>
    cases hs
    refine ⟨h.clock, Int.le_refl _, h.timeout, h.events, fun hn => ?_⟩
    obtain ⟨h1, h2, h3, h4⟩ := h.down hn
    exact ⟨h1, h2, h3, Int.le_trans h4 (Int.add_le_add_right h.heard _)⟩
  | recv =>
    rw [step_recv hs]
    exact ⟨h.clock, h.heard, h.timeout, h.events, h.down⟩
  | dial =>
    obtain ⟨hn, rfl⟩ := step_dial hs
    exact h.moves hn
  | prime =>
    obtain ⟨hn, rfl⟩ := step_prime hs
    exact h.moves hn
  | resume timeOut =>
    obtain ⟨hc, he, ht, hlo, hhi, hnow, hheard⟩ := step_resume hs
    refine ⟨hnow ▸ h.clock, ?_, by rw [ht]; exact ⟨hlo, hhi⟩, he, fun hn => absurd hc hn⟩
    rw [hheard, hnow]
    exact h.heard
  | expired =>
    obtain ⟨hn, rfl⟩ := step_expired h.events hs
    exact h.moves hn

theorem Inv.conservative {s : Timed} (h : Inv s) : Conservative s := by
  intro hn hf
  obtain ⟨h1, h2, h3, h4⟩ := h.down hn
  have he : s.h.state ≠ .expired := by
    intro he
    rw [localExpiry, he, is_session_expired_expired] at hf
    cases hf
  have ht := h.timeout.1
  have hlt := (is_session_expired_false_iff he h1 h2 h3 (by omega)).mp hf
  unfold time at hlt
  omega

/-- A loss that comes too late leads to an unsafe state, by waiting alone. -/
theorem Inv.late_loss {s s' : Timed} (h : Inv s) (hs : s.step .loss = some s')
    (hg : ¬ InTime s .loss) : ∃ n s'', s'.step (.tick n) = some s'' ∧ ¬ Conservative s'' := by
  simp only [InTime, not_forall] at hg
  obtain ⟨hc, hg⟩ := hg
  have hs' : s' = { s with h := { s.h with state := .closed }, start_connect_time := s.time } := by
    simp only [step, hc] at hs
    cases hs
    exact deliver_lost hc h.events
  subst hs'
  have ht := h.timeout
  have h0 := h.clock
  -- the last millisecond at which the test still says false
  obtain ⟨n, hn⟩ : ∃ n : Nat, s.now + n = 1000 * (s.time + s.timeout / 1000) - 1 :=
    ⟨(1000 * (s.time + s.timeout / 1000) - 1 - s.now).toNat, by unfold time; omega⟩
  refine ⟨n, _, step_tick (by simp) n, fun hcons => ?_⟩
  have hlt := hcons (by simp) ?_
  · simp only [Timed.timeout] at hlt hg hn
    omega
  · have htime : (s.now + n) / 1000 = s.time + s.timeout / 1000 - 1 := by omega
    refine (is_session_expired_false_iff (by simp) ?_ ?_ ?_ ?_).mpr ?_ <;>
      simp only [Timed.timeout, time] at * <;> omega

theorem reach_inv {s : Timed} (h : system.ReachBy InTime s) : Inv s :=
  System.ReachBy.invariant (fun _ => inv_start) (fun _ _ _ hp hg hst => inv_step hp hg hst) h

/-- Every run in which each loss is noticed in time is safe, and no other
bound on a loss is: from a state of such a run, a loss that is not in time
makes waiting unsafe. -/
theorem local_timeout_is_conservative_iff_in_time {s : Timed} (hs : system.ReachBy InTime s) :
    Conservative s ∧
    ∀ s', system.step s .loss = some s' → ¬ InTime s .loss →
      ∃ n s'', system.step s' (.tick n) = some s'' ∧ ¬ Conservative s'' := by
  have hinv := reach_inv hs
  refine ⟨hinv.conservative, ?_⟩
  intro s' hst hg
  exact hinv.late_loss hst hg

/-- The timeout of `STG.ini`, and a server that falls silent after a packet. -/
def fallsSilent : Timed :=
  { now := 1000000, h := { zookeeper_init 10000 with state := .connected, client_id := some 0 },
    start_connect_time := 0, lastHeard := 1000000, lastRecv := 1000000 }

theorem fallsSilent_start : system.start fallsSilent :=
  ⟨by decide, rfl, rfl, by decide, by decide, rfl, by decide, rfl⟩

/-- The loss is noticed after half a second, and the process still works nine
seconds later. -/
theorem local_timeout_is_conservative_of_fallsSilent :
    ∃ s, system.ReachBy InTime s ∧ s.h.state ≠ .connected ∧ s.localExpiry = false ∧
      s.now = s.lastHeard + 9500 ∧ s.now < s.lastHeard + s.timeout := by
  obtain ⟨s, hs, ht⟩ := System.ReachBy.of_run (M := system) (G := InTime)
    [.tick 500, .loss, .tick 9000]
    (fun s => s.h.state == .closed && !s.localExpiry && s.now == s.lastHeard + 9500)
    (.start fallsSilent_start) (by decide)
  simp only [Bool.and_eq_true, beq_iff_eq, Bool.not_eq_true'] at ht
  obtain ⟨⟨h1, h2⟩, h3⟩ := ht
  have hne : s.h.state ≠ .connected := by simp [h1]
  exact ⟨s, hs, hne, h2, h3, (local_timeout_is_conservative_iff_in_time hs).1 hne h2⟩

/-- The loss is noticed after 6 seconds, within two thirds of the timeout. Five
seconds later the process still works, one second after the server may have
given the node away. -/
theorem the_local_timeout_is_late : ¬ ∀ s, system.Reach s → Conservative s := by
  intro h
  obtain ⟨s, hs, ht⟩ := System.Reach.of_run (M := system) (s := fallsSilent)
    ([.tick 6000, .loss, .tick 5000])
    (fun s => s.h.state == .closed && !s.localExpiry &&
      s.now == s.lastHeard + s.timeout + 1000)
    fallsSilent_start (by decide)
  simp only [Bool.and_eq_true, beq_iff_eq, Bool.not_eq_true'] at ht
  obtain ⟨⟨h1, h2⟩, h3⟩ := ht
  have := h s hs (by simp [h1]) h2
  omega

/-! ## The second of safety -/

/-- With all three numbers in milliseconds, the test is a comparison on the time
since the second in which the loss was noticed began. -/
theorem is_session_expired_at_iff {state : ZooState} {s c timeout : Int} (hst : state ≠ .expired)
    (hs : 1000 ≤ s) (hle : s ≤ c) (hlt : c - s + s % 1000 < 2 ^ 31 * 1000)
    (ht : 1000 ≤ timeout) :
    is_session_expired state (s / 1000) (c / 1000) timeout = true ↔
      1000 * (timeout / 1000) ≤ c - s + s % 1000 := by
  rw [← Bool.not_eq_false, is_session_expired_false_iff hst (by omega) (by omega) (by omega) ht]
  omega

/-- After 2^31 seconds the count is negative. -/
theorem is_session_expired_at_wraps {state : ZooState} {s c timeout : Int} (hst : state ≠ .expired)
    (hs : 1000 ≤ s) (hlo : 2 ^ 31 * 1000 ≤ c - s + s % 1000) (hhi : c - s < 2 ^ 31 * 1000)
    (ht : 1000 ≤ timeout) : is_session_expired state (s / 1000) (c / 1000) timeout = false := by
  have hcount : toInt (c / 1000 - s / 1000) = -2 ^ 31 := by
    have he : c / 1000 - s / 1000 = 2 ^ 31 := by omega
    rw [he]
    rfl
  have hdiv : timeout.tdiv 1000 = timeout / 1000 := Int.tdiv_eq_ediv_of_nonneg (by omega)
  have h0 : s / 1000 > 0 := by omega
  have hlt : c / 1000 > s / 1000 := by omega
  unfold is_session_expired
  rw [if_neg hst, if_pos h0, if_pos hlt, hcount, hdiv, decide_eq_false_iff_not]
  omega

/-- The margin that the comment in `is_session_expired` asks for: from one
second before the end of the timeout the session has expired, and up to two
seconds before the end it has not. `lost` is when the loss was noticed. -/
def Margin (lost : Int) (s : Timed) : Prop :=
  (s.timeout - 1000 ≤ s.now - lost → s.localExpiry = true) ∧
  (s.now - lost ≤ s.timeout - 2000 → s.localExpiry = false)

/-- When the margin is used up, the whole seconds of the timeout have passed
since the second of the loss began, and they are still an `int`. -/
def Counted (lost : Int) (s : Timed) : Prop :=
  s.timeout - 1000 ≤ s.now - lost →
    1000 * (s.timeout / 1000) ≤ s.now - lost + lost % 1000 ∧
    s.now - lost + lost % 1000 < 2 ^ 31 * 1000

/-- An outage: the loss was noticed at `lost`, with the timeout `T`, and the
process has not connected since. -/
structure Outage (lost T : Int) (s : Timed) : Prop where
  state : s.h.state ≠ .connected
  events : s.h.events = []
  start : s.start_connect_time = lost / 1000
  timeout : s.timeout = T
  now : lost ≤ s.now

theorem Outage.moves {lost T : Int} {s : Timed} (h : Outage lost T s) {st : ZooState}
    (hst : st ≠ .connected) : Outage lost T { s with h := { s.h with state := st } } :=
  ⟨hst, h.events, h.start, h.timeout, h.now⟩

/-- Only a CONNECTED callback ends an outage. -/
theorem Outage.step {lost T : Int} {s s' : Timed} {l : Label} (h : Outage lost T s)
    (hl : ∀ timeOut, l ≠ .resume timeOut) (hs : s.step l = some s') : Outage lost T s' := by
  cases l with
  | tick n =>
    rw [step_tick_now hs]
    exact ⟨h.state, h.events, h.start, h.timeout, by have := h.now; simp only; omega⟩
  | heard =>
    cases hs
    exact ⟨h.state, h.events, h.start, h.timeout, h.now⟩
  | recv => simp [Timed.step, h.state] at hs
  | loss =>
    simp only [Timed.step] at hs
    split at hs
    · rename_i hr
      cases hs
      rw [deliver_lost_again hr h.state h.events]
      exact h.moves (by simp)
    · cases hs
  | dial =>
    obtain ⟨_, rfl⟩ := step_dial hs
    exact h.moves (by simp)
  | prime =>
    obtain ⟨_, rfl⟩ := step_prime hs
    exact h.moves (by simp)
  | resume timeOut => exact absurd rfl (hl timeOut)
  | expired =>
    obtain ⟨_, rfl⟩ := step_expired h.events hs
    exact h.moves (by simp)

/-- The same for every run without a CONNECTED callback. -/
theorem Outage.run {lost T : Int} {ls : List Label} :
    ∀ {s t : Timed}, Outage lost T s → (∀ timeOut, .resume timeOut ∉ ls) →
      system.run s ls = some t → Outage lost T t := by
  intro s t h hls hr
  have hA : ∀ l ∈ ls, ∀ timeOut, l ≠ .resume timeOut := by
    rintro l hm timeOut rfl
    exact hls timeOut hm
  exact System.run_keeps (P := Outage lost T) (fun _ _ _ hl ho hs => ho.step hl hs) hA h hr

/-- What every state has, with or without a loss that is noticed in time. -/
structure Base (s : Timed) : Prop where
  clock : 1000 ≤ s.now
  timeout : 2000 ≤ s.timeout
  events : s.h.events = []

theorem base_step {s s' : Timed} {l : Label} (h : Base s) (hs : s.step l = some s') : Base s' := by
  cases l with
  | tick n =>
    rw [step_tick_now hs]
    exact ⟨by have := h.clock; simp only; omega, h.timeout, h.events⟩
  | heard =>
    cases hs
    exact ⟨h.clock, h.timeout, h.events⟩
  | recv =>
    rw [step_recv hs]
    exact ⟨h.clock, h.timeout, h.events⟩
  | loss =>
    have htimeout : s.h.cleanup.recv_timeout = s.h.recv_timeout := by
      unfold Handle.cleanup
      split_ifs <;> rfl
    simp only [step] at hs
    split at hs
    · cases hs
      exact ⟨h.clock, h.timeout.trans_eq htimeout.symm, rfl⟩
    · cases hs
  | dial =>
    obtain ⟨_, rfl⟩ := step_dial hs
    exact ⟨h.clock, h.timeout, h.events⟩
  | prime =>
    obtain ⟨_, rfl⟩ := step_prime hs
    exact ⟨h.clock, h.timeout, h.events⟩
  | resume timeOut =>
    obtain ⟨_, he, ht, hlo, _, hnow, _⟩ := step_resume hs
    exact ⟨hnow ▸ h.clock, by rw [ht]; exact hlo, he⟩
  | expired =>
    obtain ⟨_, rfl⟩ := step_expired h.events hs
    exact ⟨h.clock, h.timeout, h.events⟩

theorem reach_base {s : Timed} (h : system.Reach s) : Base s := by
  apply System.Reach.invariant (P := Base) _ _ h
  · rintro s ⟨h1, _, h3, h4, _⟩
    exact ⟨h1, h4, h3⟩
  · intro s l s' hp hs
    exact base_step hp hs

/-- The loss of a connection begins an outage. -/
theorem Base.lost {x y : Timed} (h : Base x) (hc : x.h.state = .connected)
    (hy : x.step .loss = some y) : Outage x.now x.timeout y := by
  simp only [step, hc] at hy
  cases hy
  rw [deliver_lost hc h.events]
  exact ⟨by simp, h.events, rfl, rfl, Int.le_refl _⟩

/-- For every outage that a run comes to, and every later moment of it: the
test keeps the second of safety exactly when the whole seconds of the timeout
have been counted by the time it is used up. The count begins with the second
in which the loss was noticed, so the margin is kept up to the phase of the
loss, and lost up to the rest of the timeout. -/
theorem the_margin_is_kept_iff {x y z : Timed} {ls : List Label} (hx : system.Reach x)
    (hc : x.h.state = .connected) (hy : system.step x .loss = some y)
    (hr : system.run y ls = some z) (hls : ∀ timeOut, .resume timeOut ∉ ls)
    (he : z.h.state ≠ .expired) (hlt : z.now - x.now < 2 ^ 31 * 1000) :
    Margin x.now z ↔ Counted x.now z := by
  have hb := reach_base hx
  have hz := (hb.lost hc hy).run hls hr
  have hclock := hb.clock
  have hnow := hz.now
  have ht : 2000 ≤ z.timeout := hz.timeout ▸ hb.timeout
  unfold Margin Counted localExpiry time
  rw [hz.start]
  by_cases hint : z.now - x.now + x.now % 1000 < 2 ^ 31 * 1000
  · have htest := is_session_expired_at_iff he hclock hnow hint (by omega : 1000 ≤ z.timeout)
    rw [← Bool.not_eq_true, htest]
    omega
  · rw [is_session_expired_at_wraps he hclock (by omega) hlt (by omega)]
    simp only [Bool.false_eq_true, imp_false, implies_true, and_true]
    omega

/-- A loss in the last millisecond of a second, and the state after it. -/
def lateInTheSecond : Timed := { fallsSilent with now := 1000999 }

def lateLost : Timed :=
  { lateInTheSecond with
    h := { fallsSilent.h with state := .closed }, start_connect_time := 1000 }

/-- A second before the end of the timeout is up, and the test says so. -/
theorem the_margin_is_kept_of_lateInTheSecond :
    Margin lateInTheSecond.now { lateLost with now := 1010000 } ∧
      ({ lateLost with now := 1010000 } : Timed).localExpiry = true := by
  have hx : system.Reach lateInTheSecond := System.Reach.run (.start fallsSilent_start)
    (show system.run fallsSilent [.tick 999] = some lateInTheSecond by decide)
  have hm := (the_margin_is_kept_iff (y := lateLost) hx rfl (by decide)
    (show system.run lateLost [.tick 9001] = some { lateLost with now := 1010000 } by decide)
    (by simp) (by decide) (by decide)).mpr (fun _ => by decide)
  exact ⟨hm, hm.1 (by decide)⟩

/-- A loss at the start of a second, with the timeout of `STG.ini`. Nine seconds
later, one second before the end of the timeout, the process still works. -/
theorem the_margin_is_lost :
    ¬ ∀ (x y z : Timed) (ls : List Label), system.Reach x → x.h.state = .connected →
      system.step x .loss = some y → system.run y ls = some z →
      (∀ timeOut, .resume timeOut ∉ ls) → z.h.state ≠ .expired →
      z.now - x.now < 2 ^ 31 * 1000 → Margin x.now z := by
  intro h
  have hm := h fallsSilent { lateLost with now := 1000000 } { lateLost with now := 1009000 }
    [.tick 9000] (.start fallsSilent_start) rfl (by decide) (by decide) (by simp) (by decide)
    (by decide)
  exact absurd (hm.1 (by decide)) (by decide)

end Timed

end ZookZhubei
