-- The heartbeat of a connected handle. `zookeeper_interest` says how long the I/O
-- thread may sleep, sends a ping when nothing went out for a third of the timeout,
-- and gives the server up when nothing came in for two thirds of it.
import ZookZhubei.Runs
import ZookZhubei.Zookbag

namespace ZookZhubei

open Runs

/-! ## The model -/

/-- The milliseconds between two times in microseconds, as an `int`. The seconds and the
rest are subtracted on their own, and a rest may be negative. -/
def calculate_interval (start stop : Int) : Int :=
  toInt ((stop / 1000000 - start / 1000000) * 1000 +
    (stop % 1000000 - start % 1000000).tdiv 1000)

def get_timeval (interval : Int) : Int := if interval < 0 then 0 else interval

/-- Where the I/O thread is in the loop of `do_io`. `write` says that it asked for
`ZOOKEEPER_WRITE`. -/
inductive BeatPhase
  | top
  | polling (timeout : Int) (write : Bool)
  | returned (write : Bool)
  /-- The connection is given up. -/
  | lost
deriving DecidableEq, Repr

/-- A handle with a connection. Times are in microseconds and `recv_timeout` is in
milliseconds. `woken` is a byte in the pipe of the thread. `excused` says that a ping was due
and not sent, since a request had no answer or the handshake took its time. -/
structure Beat where
  recv_timeout : Int
  now : Int
  last_recv : Int
  last_send : Int
  to_send : Nat
  sent_requests : Nat
  woken : Bool
  phase : BeatPhase
  excused : Bool
deriving DecidableEq, Repr

/-- `zookeeper_interest` with a connection to a server that writes. -/
def Beat.zookeeper_interest (zh : Beat) : Beat :=
  let idle_recv := calculate_interval zh.last_recv zh.now
  let idle_send := calculate_interval zh.last_send zh.now
  let recv_to := toInt ((toInt (zh.recv_timeout * 2)).tdiv 3 - idle_recv)
  let send_to := toInt (zh.recv_timeout.tdiv 3 - idle_send)
  if recv_to ≤ 0 then { zh with phase := .lost }
  else if 0 < send_to then
    { zh with phase := .polling (get_timeval (min recv_to send_to)) (decide (0 < zh.to_send)) }
  else
    let timeout := get_timeval (min recv_to (zh.recv_timeout.tdiv 3))
    if zh.sent_requests = 0 then
      -- `send_ping`, which also wakes the thread.
      { zh with to_send := zh.to_send + 1, woken := true, phase := .polling timeout true }
    else { zh with excused := true, phase := .polling timeout (decide (0 < zh.to_send)) }

inductive BeatAct
  | interest
  /-- A thread of the program puts a request in the queue. -/
  | request
  /-- `poll` returns. -/
  | wake (d : Nat)
  /-- `zookeeper_process`: whether the socket took the queue, whether a whole message
  came in, and how many requests were answered. -/
  | process (sent got : Bool) (answered : Nat)
deriving DecidableEq, Repr

/-- A flush that sends something. -/
def Beat.flush (zh : Beat) : Beat :=
  if 0 < zh.to_send then { zh with to_send := 0, last_send := zh.now, excused := false } else zh

def Beat.step (zh : Beat) : BeatAct → Option Beat
  | .interest => if zh.phase = .top then some zh.zookeeper_interest else none
  | .request =>
    if zh.phase = .lost then none
    else some { zh with to_send := zh.to_send + 1, sent_requests := zh.sent_requests + 1, woken := true }
  | .wake d =>
    match zh.phase with
    | .polling _ write => some { zh with now := zh.now + d, woken := false, phase := .returned write }
    | _ => none
  | .process sent got answered =>
    match zh.phase with
    | .returned write =>
      if answered ≤ zh.sent_requests ∧ (got = false → answered = 0) then
        let zh := if write && sent then zh.flush else zh
        some { zh with last_recv := if got then zh.now else zh.last_recv
                       sent_requests := zh.sent_requests - answered
                       phase := .top }
      else none
    | _ => none

/-- The answer to the handshake has come in. The last message went out some time before.
The timeout is below 2^30 milliseconds, twelve days, so that twice it is an `int`. -/
def beats : System Beat BeatAct :=
  { start := fun zh => (0 ≤ zh.recv_timeout ∧ zh.recv_timeout < 2 ^ 30) ∧ zh.phase = .top ∧
      zh.last_recv = zh.now ∧ zh.excused = true
    step := Beat.step }

/-- The thread is `slack` microseconds late at most, at once if it asked to write, and the
socket takes what it is given. -/
def punctual (slack : Nat) (zh : Beat) : BeatAct → Prop
  | .wake d => ∀ timeout write, zh.phase = .polling timeout write →
      (d : Int) ≤ (if write || zh.woken then 0 else timeout * 1000) + slack
  | .process sent _ _ => zh.phase = .returned true → sent = true
  | _ => True

/-! ## The two clocks -/

/-- The interval is off by less than a millisecond, as long as it is an `int`. -/
theorem calculate_interval_close {start stop : Int} (h0 : start ≤ stop)
    (h1 : stop - start < 2 * 10 ^ 12) :
    stop - start - 1000 < calculate_interval start stop * 1000 ∧
      calculate_interval start stop * 1000 < stop - start + 1000 := by
  unfold calculate_interval
  have hdiv := Int.mul_tdiv_add_tmod (stop % 1000000 - start % 1000000) 1000
  have hlt := Int.tmod_lt_of_pos (stop % 1000000 - start % 1000000) (by omega : (0 : Int) < 1000)
  have hgt := Int.lt_tmod_of_pos (stop % 1000000 - start % 1000000) (by omega : (0 : Int) < 1000)
  rw [toInt_eq_self (by omega) (by omega)]
  omega

/-- Two thirds of the timeout, in microseconds, and one for the rounding. -/
def Beat.patience (zh : Beat) : Int := (zh.recv_timeout * 2).tdiv 3 * 1000 + 1000

def Beat.silence (zh : Beat) : Int := zh.recv_timeout.tdiv 3 * 1000 + 1000

/-- How long nothing has come in, and nothing has gone out, at each place of the loop. A
sleep is counted in before it begins. -/
def Beat.Timely (slack : Nat) (zh : Beat) : Prop :=
  (0 ≤ zh.recv_timeout ∧ zh.recv_timeout < 2 ^ 30) ∧ zh.last_recv ≤ zh.now ∧
    (zh.excused = true ∨ zh.last_send ≤ zh.now) ∧
    match zh.phase with
    | .top => zh.now - zh.last_recv ≤ zh.patience + slack ∧
        (zh.excused = true ∨ zh.now - zh.last_send ≤ zh.silence + slack)
    | .polling timeout write => 0 ≤ timeout ∧
        zh.now - zh.last_recv + timeout * 1000 ≤ zh.patience ∧
        (zh.excused = true ∨ zh.now - zh.last_send + timeout * 1000 ≤ zh.silence ∨
          (write = true ∧ zh.now - zh.last_send ≤ zh.silence + slack)) ∧
        (write = true → 0 < zh.to_send)
    | .returned write => zh.now - zh.last_recv ≤ zh.patience + slack ∧
        (zh.excused = true ∨ zh.now - zh.last_send ≤ zh.silence + slack ∨
          (write = true ∧ zh.now - zh.last_send ≤ zh.silence + 2 * slack)) ∧
        (write = true → 0 < zh.to_send)
    | .lost => zh.patience - 2000 < zh.now - zh.last_recv ∧
        zh.now - zh.last_recv ≤ zh.patience + slack ∧
        (zh.excused = true ∨ zh.now - zh.last_send ≤ zh.silence + slack)

section
variable {slack : Nat} {zh : Beat}

theorem get_timeval_of_nonneg {interval : Int} (h : 0 ≤ interval) :
    get_timeval interval = interval := by
  unfold get_timeval
  rw [if_neg (by omega)]

/-- A third and two thirds of a timeout are what they should be. -/
theorem thirds {t : Int} (h0 : 0 ≤ t) (h1 : t < 2 ^ 30) :
    (0 ≤ t.tdiv 3 ∧ t.tdiv 3 < 2 ^ 29) ∧
      0 ≤ (t * 2).tdiv 3 ∧ (t * 2).tdiv 3 < 2 ^ 30 ∧ toInt (t * 2) = t * 2 := by
  rw [Int.tdiv_eq_ediv_of_nonneg h0, Int.tdiv_eq_ediv_of_nonneg (by omega : (0 : Int) ≤ t * 2)]
  exact ⟨by omega, by omega, by omega, toInt_eq_self (by omega) (by omega)⟩

/-- At most a day. -/
def shortSlack (slack : Nat) : Prop := slack ≤ 10 ^ 11

/-- What is left of two thirds of the timeout, up to a millisecond. -/
theorem recv_to_close (hslack : shortSlack slack) (h : zh.Timely slack) (hp : zh.phase = .top) :
    let recv_to := toInt ((toInt (zh.recv_timeout * 2)).tdiv 3 -
      calculate_interval zh.last_recv zh.now)
    zh.patience - 2000 < zh.now - zh.last_recv + recv_to * 1000 ∧
      zh.now - zh.last_recv + recv_to * 1000 < zh.patience := by
  obtain ⟨⟨h0, h1⟩, hle, -, h⟩ := h
  rw [hp] at h
  obtain ⟨-, hd0, hd1, hd2⟩ := thirds h0 h1
  unfold shortSlack at hslack
  unfold Beat.patience at h ⊢
  obtain ⟨hr1, hr2⟩ := calculate_interval_close hle (by omega)
  rw [hd2, toInt_eq_self (by omega) (by omega)]
  omega

/-- The same for a third, unless no ping is owed. -/
theorem send_to_close (hslack : shortSlack slack) (h : zh.Timely slack) (hp : zh.phase = .top)
    (he : zh.excused = false) :
    let send_to := toInt (zh.recv_timeout.tdiv 3 - calculate_interval zh.last_send zh.now)
    zh.now - zh.last_send + send_to * 1000 < zh.silence := by
  obtain ⟨⟨h0, h1⟩, -, hle, h⟩ := h
  rw [hp] at h
  have hle := hle.resolve_left (by simp [he])
  have hsend := h.2.resolve_left (by simp [he])
  obtain ⟨⟨hd0, hd1⟩, -⟩ := thirds h0 h1
  unfold shortSlack at hslack
  unfold Beat.silence at hsend ⊢
  obtain ⟨hs1, hs2⟩ := calculate_interval_close hle (by omega)
  dsimp only
  rw [toInt_eq_self (by omega) (by omega)]
  omega

theorem timely_interest (hslack : shortSlack slack) (h : zh.Timely slack) (hp : zh.phase = .top) :
    zh.zookeeper_interest.Timely slack := by
  obtain ⟨hr1, hr2⟩ := recv_to_close hslack h hp
  have hs := send_to_close hslack h hp
  obtain ⟨hto, hle, hsent, h⟩ := h
  rw [hp] at h
  obtain ⟨hrecv, hsend⟩ := h
  obtain ⟨⟨h3, -⟩, -⟩ := thirds hto.1 hto.2
  unfold Beat.zookeeper_interest
  dsimp only
  generalize toInt ((toInt (zh.recv_timeout * 2)).tdiv 3 -
    calculate_interval zh.last_recv zh.now) = recv_to at hr1 hr2 ⊢
  generalize toInt (zh.recv_timeout.tdiv 3 - calculate_interval zh.last_send zh.now) = send_to
    at hs ⊢
  split
  · exact ⟨hto, hle, hsent, by simp only [Beat.patience] at hr1 ⊢; omega, hrecv, hsend⟩
  · rename_i hrt
    split
    · rename_i hst
      rw [get_timeval_of_nonneg (by omega)]
      refine ⟨hto, hle, hsent, by omega, ?_, ?_, by simp⟩
      · simp only [Beat.patience] at hr2 ⊢
        omega
      · cases he : zh.excused with
        | true => exact .inl rfl
        | false =>
          have hlt := hs he
          refine .inr (.inl ?_)
          simp only [Beat.silence] at hlt ⊢
          omega
    · rename_i hst
      rw [get_timeval_of_nonneg (by omega)]
      have hsleep : zh.now - zh.last_recv + min recv_to (zh.recv_timeout.tdiv 3) * 1000 ≤
          zh.patience := by omega
      split
      · exact ⟨hto, hle, hsent, by omega, hsleep, hsend.imp_right fun hle => .inr ⟨rfl, hle⟩, by simp⟩
      · exact ⟨hto, hle, .inl rfl, by omega, hsleep, .inl rfl, by simp⟩

theorem timely_wake (h : zh.Timely slack) {timeout : Int} {write : Bool}
    (hp : zh.phase = .polling timeout write) {d : Nat} (hg : punctual slack zh (.wake d)) :
    Beat.Timely slack { zh with now := zh.now + d, woken := false, phase := .returned write } := by
  obtain ⟨hto, hle, hsent, h⟩ := h
  rw [hp] at h
  obtain ⟨htime, hrecv, hsend, hqueue⟩ := h
  have hd := hg timeout write hp
  refine ⟨hto, by simp only; omega, hsent.imp_right fun hle => by simp only; omega, ?_, ?_, hqueue⟩
  · simp only [Beat.patience] at hrecv ⊢
    split at hd <;> omega
  · simp only [Beat.silence] at hsend ⊢
    rcases hsend with he | hle | ⟨hw, hle⟩
    · exact .inl he
    · refine .inr (.inl ?_)
      split at hd <;> omega
    · refine .inr (.inr ⟨hw, ?_⟩)
      simp only [hw, Bool.true_or, if_true] at hd
      omega

theorem timely_process (h : zh.Timely slack) {write : Bool} (hp : zh.phase = .returned write)
    {sent got : Bool} {answered : Nat} (hg : punctual slack zh (.process sent got answered)) {zh' : Beat}
    (hs : zh.step (.process sent got answered) = some zh') : zh'.Timely slack := by
  obtain ⟨hto, hle, hsent, h⟩ := h
  rw [hp] at h
  obtain ⟨hrecv, hsend, hqueue⟩ := h
  obtain ⟨⟨h3, -⟩, h2, -⟩ := thirds hto.1 hto.2
  simp only [Beat.step, hp] at hs
  split at hs
  · cases hs
    have hall : write = true → sent = true := fun hw => hg (by rw [hp, hw])
    by_cases hw : write = true
    · have hflush : zh.flush = { zh with to_send := 0, last_send := zh.now, excused := false } := by
        simp [Beat.flush, hqueue hw]
      simp only [hw, hall hw, Bool.and_self, if_true, hflush]
      refine ⟨hto, ?_, .inr (Int.le_refl _), ?_, .inr ?_⟩
      · simp only
        split <;> omega
      · simp only [Beat.patience] at hrecv ⊢
        split <;> omega
      · simp only [Beat.silence]
        omega
    · simp only [hw, Bool.false_and, Bool.false_eq_true, if_false] at hsend ⊢
      refine ⟨hto, ?_, hsent, ?_, ?_⟩
      · simp only
        split <;> omega
      · simp only [Beat.patience] at hrecv ⊢
        split <;> omega
      · simp only [false_and, or_false] at hsend
        exact hsend
  · cases hs

theorem timely_step (hslack : shortSlack slack) (h : zh.Timely slack) {a : BeatAct}
    (hg : punctual slack zh a) {zh' : Beat} (hs : zh.step a = some zh') : zh'.Timely slack := by
  cases a with
  | interest =>
    simp only [Beat.step] at hs
    split at hs
    · rename_i hp
      cases hs
      exact timely_interest hslack h hp
    · cases hs
  | request =>
    simp only [Beat.step] at hs
    split at hs
    · cases hs
    · cases hs
      obtain ⟨hto, hle, hsent, h⟩ := h
      refine ⟨hto, hle, hsent, ?_⟩
      cases hp : zh.phase with
      | top =>
        rw [hp] at h
        exact h
      | polling timeout write =>
        rw [hp] at h
        exact ⟨h.1, h.2.1, h.2.2.1, fun _ => Nat.succ_pos _⟩
      | returned write =>
        rw [hp] at h
        exact ⟨h.1, h.2.1, fun _ => Nat.succ_pos _⟩
      | lost => contradiction
  | wake d =>
    simp only [Beat.step] at hs
    split at hs
    · rename_i timeout write hp
      cases hs
      exact timely_wake h hp hg
    · cases hs
  | process sent got answered =>
    cases hp : zh.phase with
    | returned write => exact timely_process h hp hg hs
    | top => simp [Beat.step, hp] at hs
    | polling timeout write => simp [Beat.step, hp] at hs
    | lost => simp [Beat.step, hp] at hs

/-- With a punctual thread, nothing that comes in for two thirds of the timeout is noticed
then, and not before, up to a millisecond of rounding on either side. Something goes out each
third of it, unless a request waits for its answer or the handshake is just over. -/
theorem a_connection_is_kept_or_given_up_in_time {slack : Nat} (hslack : shortSlack slack)
    {zh : Beat} (h : beats.ReachBy (punctual slack) zh) :
    zh.now - zh.last_recv ≤ zh.patience + slack ∧
      (zh.phase = .lost → zh.patience - 2000 < zh.now - zh.last_recv) ∧
      (zh.excused = false → zh.now - zh.last_send ≤ zh.silence + 2 * slack) := by
  have ht : zh.Timely slack := by
    refine System.ReachBy.invariant (P := Beat.Timely slack) ?_ ?_ h
    · rintro zh ⟨hto, hp, hr, he⟩
      obtain ⟨-, h2, -⟩ := thirds hto.1 hto.2
      refine ⟨hto, hr.le, .inl he, ?_⟩
      rw [hp]
      refine ⟨?_, .inl he⟩
      unfold Beat.patience
      omega
    · exact fun _ _ _ hi hg hs => timely_step hslack hi hg hs
  obtain ⟨-, -, -, ht⟩ := ht
  cases hp : zh.phase with
  | top =>
    rw [hp] at ht
    refine ⟨ht.1, by simp, fun he => ?_⟩
    have := ht.2.resolve_left (by simp [he])
    omega
  | polling timeout write =>
    rw [hp] at ht
    obtain ⟨htime, hrecv, hsend, -⟩ := ht
    refine ⟨by omega, by simp, fun he => ?_⟩
    rcases hsend.resolve_left (by simp [he]) with hle | ⟨-, hle⟩ <;> omega
  | returned write =>
    rw [hp] at ht
    obtain ⟨hrecv, hsend, -⟩ := ht
    refine ⟨hrecv, by simp, fun he => ?_⟩
    rcases hsend.resolve_left (by simp [he]) with hle | ⟨-, hle⟩ <;> omega
  | lost =>
    rw [hp] at ht
    refine ⟨ht.2.1, fun _ => ht.1, fun he => ?_⟩
    have := ht.2.2.resolve_left (by simp [he])
    omega

instance (slack : Nat) (zh : Beat) : (a : BeatAct) → Decidable (punctual slack zh a)
  | .wake d =>
    match hp : zh.phase with
    | .polling timeout write =>
      decidable_of_iff ((d : Int) ≤ (if write || zh.woken then 0 else timeout * 1000) + slack) (by
        simp [punctual, hp])
    | .top | .returned _ | .lost => .isTrue (by simp [punctual, hp])
  | .process sent _ _ => inferInstanceAs (Decidable (zh.phase = .returned true → sent = true))
  | .interest | .request => .isTrue trivial

/-- A handle with a timeout of three seconds, half a second after it dialled. -/
def Beat.fresh : Beat :=
  { recv_timeout := 3000, now := 0, last_recv := 0, last_send := -500000, to_send := 0,
    sent_requests := 0, woken := false, phase := .top, excused := true }

/-- Two pings to a server that says nothing. -/
def silentServer : List BeatAct :=
  [.interest, .wake 500000, .process true false 0, .interest, .wake 0, .process true false 0,
   .interest, .wake 1001000, .process true false 0, .interest, .wake 500, .process true false 0,
   .interest, .wake 499000, .process true false 0, .interest]

theorem a_silent_server_is_given_up :
    ∃ zh, beats.ReachBy (punctual 1000) zh ∧ zh.phase = .lost ∧
      zh.patience - 2000 < zh.now - zh.last_recv ∧ zh.now - zh.last_send ≤ zh.silence + 2000 := by
  obtain ⟨zh, hr, ht⟩ := System.ReachBy.of_run (M := beats) (G := punctual 1000) (s := .fresh)
    silentServer (fun zh => zh.phase == .lost && !zh.excused)
    (.start ⟨by decide, rfl, rfl, rfl⟩) (by decide)
  simp only [Bool.and_eq_true, beq_iff_eq, Bool.not_eq_true'] at ht
  have hslack : shortSlack 1000 := by
    unfold shortSlack
    decide
  obtain ⟨-, h2, h3⟩ := a_connection_is_kept_or_given_up_in_time hslack hr
  exact ⟨zh, hr, ht.1, h2 ht.1, h3 ht.2⟩

/-- With three requests that are answered one every 1.9 seconds, nothing goes out for longer
than the whole timeout, and the connection is kept. -/
example : (beats.runBy (punctual 0) Beat.fresh
    [.request, .request, .request, .interest, .wake 0, .process true false 0,
     .interest, .wake 1000000, .process true false 0, .interest, .wake 900000, .process true true 1,
     .interest, .wake 1000000, .process true false 0, .interest, .wake 900000, .process true true 1,
     .interest]).any
      (fun zh => zh.phase != .lost && decide (zh.recv_timeout * 1000 < zh.now - zh.last_send)) := by
  decide

end

end ZookZhubei
