-- Requests and their completions. A request is known by its xid, waits in
-- `sent_requests` in the order in which it was sent, and is completed by the
-- reply, by the loss of the connection or by `zookeeper_close`; the completion
-- thread calls what is not synchronous. The threads of the program, the two
-- threads of the handle, the server and the closing thread interleave.
import Mathlib.Data.List.Perm.Basic
import ZookZhubei.Zookbag
import ZookZhubei.Runs

namespace ZookZhubei

open Runs

/-! ## The model -/

def WATCHER_EVENT_XID : Int := -1
def PING_XID : Int := -2
def AUTH_XID : Int := -4
def SET_WATCHES_XID : Int := -8

/-- Replies that answer no entry of `sent_requests`. -/
def isSpecial (xid : Int) : Bool :=
  xid == PING_XID || xid == WATCHER_EVENT_XID || xid == SET_WATCHES_XID || xid == AUTH_XID

/-- A `completion_list_t`. `id` counts the entries and is not in the source. -/
structure Completion where
  id : Nat
  xid : Int
  sync : Bool
deriving DecidableEq, Repr

/-- What a completion is called with: the header of a reply, or the reason for which
`free_completions` gives it up. -/
inductive Outcome
  | reply (xid err : Int)
  | reason (rc : Int)
deriving DecidableEq, Repr

/-- The I/O thread: between two replies, with an entry in its hands and the header of
the reply, on its way to `handle_error`, or at its end. -/
inductive Io
  | idle
  | holds (c : Completion) (xid err : Int)
  | failing (rc : Int)
  | gone
deriving DecidableEq, Repr

/-- The completion thread: at the test of its loop, at the wait for an entry, in
`process_completions`, or at its end. -/
inductive Worker
  | check
  | wait
  | drain
  | gone
deriving DecidableEq, Repr

/-- `calls` are the xids of calls that passed their checks and have no completion yet.
`wire` holds the requests from the queue up to the server, `replies` what is on its
way back, and `completed` each completion that was called, in this order. The events
between the entries of `completions_to_process` are left out. -/
structure Requests where
  unrecoverable : Bool
  close_requested : Bool
  freed : Bool
  io : Io
  worker : Worker
  xid : Int
  calls : List Int
  issued : Nat
  sent_requests : List Completion
  wire : List Int
  replies : List (Int × Int)
  completions_to_process : List (Completion × Outcome)
  completed : List (Completion × Outcome)
deriving DecidableEq, Repr

/-- A synchronous entry is signalled at once, and another one is queued for the completion
thread. -/
def Requests.conclude (s : Requests) (es : List (Completion × Outcome)) : Requests :=
  { s with completed := s.completed ++ es.filter fun e => e.1.sync
           completions_to_process := s.completions_to_process ++ es.filter fun e => !e.1.sync }

/-- `free_completions`. -/
def Requests.free_completions (s : Requests) (reason : Int) : Requests :=
  { s.conclude (s.sent_requests.map fun c => (c, .reason reason)) with sent_requests := [] }

/-- `cleanup_bufs`: the queues of the connection go with it. -/
def Requests.cleanup_bufs (s : Requests) (rc : Int) : Requests :=
  { s.free_completions rc with wire := [], replies := [] }

inductive ReqAct
  /-- A call of the program up to `get_xid`, which may ask for the time. -/
  | call (now : Int)
  /-- The critical section of such a call: `do_add_completion` and the queue. -/
  | add (k : Nat) (sync : Bool)
  /-- The server answers the next request. -/
  | answer (err : Int)
  /-- The server sends a ping reply, an event or the like. -/
  | event (xid : Int)
  /-- A message that answers nothing. -/
  | forge (xid err : Int)
  /-- `zookeeper_process` takes a message up to `dequeue_completion`. -/
  | process
  /-- The rest of `zookeeper_process` for a reply that fits. -/
  | finish
  /-- The branch for a reply that does not fit. -/
  | putBack
  /-- `handle_error`. -/
  | lose (rc : Int)
  /-- `handle_error` with a state from which there is no way back. -/
  | die (rc : Int)
  /-- `update_addrs` closes the socket for a list that changed. The requests that were
  sent are lost, and so are the replies that were not read. -/
  | move (sent read : Nat)
  /-- The end of `do_io`. -/
  | quit
  /-- The next step of `do_completion`. -/
  | work
  /-- `zookeeper_close` sets its flag. -/
  | close
  /-- `zookeeper_close` calls `free_completions`. -/
  | free
deriving DecidableEq, Repr

/-- `get_xid`. A counter that has come to -1 starts again with the time. -/
def get_xid (xid now : Int) : Int := if xid = -1 then toInt now else xid

def Requests.step (s : Requests) : ReqAct → Option Requests
  | .call now =>
    if s.unrecoverable then none
    else
      let xid := get_xid s.xid now
      some { s with calls := s.calls ++ [xid], xid := toInt (xid + 1) }
  | .add k sync =>
    match s.calls[k]? with
    | none => none
    | some xid =>
      if s.close_requested then some { s with calls := s.calls.eraseIdx k }
      else
        some { s with calls := s.calls.eraseIdx k, issued := s.issued + 1,
                      sent_requests := s.sent_requests ++ [{ id := s.issued, xid, sync }],
                      wire := s.wire ++ [xid] }
  | .answer err =>
    match s.wire with
    | [] => none
    | xid :: wire => some { s with wire, replies := s.replies ++ [(xid, err)] }
  | .event xid => if isSpecial xid then some { s with replies := s.replies ++ [(xid, 0)] } else none
  | .forge xid err => some { s with replies := s.replies ++ [(xid, err)] }
  | .process =>
    if s.unrecoverable = false ∧ s.io = .idle then
      match s.replies with
      | [] => none
      | (xid, err) :: replies =>
        if isSpecial xid then some { s with replies }
        else
          match s.sent_requests with
          -- With no entry and no close under way this is the failed `assert(cptr)`.
          | [] => if s.close_requested then some { s with replies } else none
          | c :: sent_requests => some { s with replies, sent_requests, io := .holds c xid err }
    else none
  | .finish =>
    match s.io with
    | .holds c xid err =>
      if c.xid = xid then some { s.conclude [(c, .reply xid err)] with io := .idle } else none
    | _ => none
  | .putBack =>
    match s.io with
    | .holds c xid _ =>
      if c.xid = xid then none
      else some { s with io := .failing ZRUNTIMEINCONSISTENCY, sent_requests := c :: s.sent_requests }
    | _ => none
  | .lose rc =>
    if s.io = .idle ∨ s.io = .failing rc then some { s.cleanup_bufs rc with io := .idle } else none
  | .die rc =>
    if s.io = .idle ∧ s.unrecoverable = false then
      some { s.cleanup_bufs rc with unrecoverable := true }
    else none
  -- Neither `sent_requests` nor `to_send` is cleaned up here.
  | .move sent read => some { s with wire := s.wire.drop sent, replies := s.replies.take read }
  | .quit =>
    if s.io = .idle ∧ (s.close_requested ∨ s.unrecoverable) then some { s with io := .gone } else none
  | .work =>
    match s.worker with
    | .check => some { s with worker := if s.close_requested then .gone else .wait }
    | .wait =>
      if s.completions_to_process ≠ [] ∨ s.close_requested then some { s with worker := .drain }
      else none
    | .drain =>
      match s.completions_to_process with
      | [] => some { s with worker := .check }
      | e :: rest => some { s with completions_to_process := rest, completed := s.completed ++ [e] }
    | .gone => none
  | .close => some { s with close_requested := true }
  | .free => if s.close_requested then some { s.free_completions ZCLOSING with freed := true } else none

/-- A new handle. The first xid is the time, as an `int`. -/
def requests : System Requests ReqAct :=
  { start := fun s =>
      s.unrecoverable = false ∧ s.close_requested = false ∧ s.freed = false ∧ s.io = .idle ∧
      s.worker = .check ∧ (0 ≤ s.xid ∧ s.xid < 2 ^ 31) ∧ s.calls = [] ∧ s.issued = 0 ∧
      s.sent_requests = [] ∧ s.wire = [] ∧ s.replies = [] ∧ s.completions_to_process = [] ∧
      s.completed = []
    step := Requests.step }

/-- What a step can be, with what it found. -/
inductive ReqTrans (s : Requests) : ReqAct → Requests → Prop
  | call (now : Int) : s.unrecoverable = false →
      ReqTrans s (.call now) { s with calls := s.calls ++ [get_xid s.xid now],
                                      xid := toInt (get_xid s.xid now + 1) }
  | refused {k : Nat} {sync : Bool} {xid : Int} : s.calls[k]? = some xid → s.close_requested = true →
      ReqTrans s (.add k sync) { s with calls := s.calls.eraseIdx k }
  | added {k : Nat} {sync : Bool} {xid : Int} : s.calls[k]? = some xid → s.close_requested = false →
      ReqTrans s (.add k sync)
        { s with calls := s.calls.eraseIdx k, issued := s.issued + 1,
                 sent_requests := s.sent_requests ++ [{ id := s.issued, xid, sync }],
                 wire := s.wire ++ [xid] }
  | answer {xid : Int} {wire : List Int} (err : Int) : s.wire = xid :: wire →
      ReqTrans s (.answer err) { s with wire, replies := s.replies ++ [(xid, err)] }
  | event {xid : Int} : isSpecial xid = true →
      ReqTrans s (.event xid) { s with replies := s.replies ++ [(xid, 0)] }
  | forge (xid err : Int) :
      ReqTrans s (.forge xid err) { s with replies := s.replies ++ [(xid, err)] }
  | special {xid err : Int} {replies : List (Int × Int)} : s.io = .idle →
      s.replies = (xid, err) :: replies → isSpecial xid = true →
      ReqTrans s .process { s with replies }
  | late {xid err : Int} {replies : List (Int × Int)} : s.io = .idle →
      s.replies = (xid, err) :: replies → isSpecial xid = false → s.sent_requests = [] →
      s.close_requested = true → ReqTrans s .process { s with replies }
  | taken {xid err : Int} {replies : List (Int × Int)} {c : Completion}
      {sent_requests : List Completion} : s.io = .idle → s.replies = (xid, err) :: replies →
      isSpecial xid = false → s.sent_requests = c :: sent_requests →
      ReqTrans s .process { s with replies, sent_requests, io := .holds c xid err }
  | finish {c : Completion} {xid err : Int} : s.io = .holds c xid err → c.xid = xid →
      ReqTrans s .finish { s.conclude [(c, .reply xid err)] with io := .idle }
  | putBack {c : Completion} {xid err : Int} : s.io = .holds c xid err → c.xid ≠ xid →
      ReqTrans s .putBack
        { s with io := .failing ZRUNTIMEINCONSISTENCY, sent_requests := c :: s.sent_requests }
  | lose {rc : Int} : s.io = .idle ∨ s.io = .failing rc →
      ReqTrans s (.lose rc) { s.cleanup_bufs rc with io := .idle }
  | die {rc : Int} : s.io = .idle →
      ReqTrans s (.die rc) { s.cleanup_bufs rc with unrecoverable := true }
  | move (sent read : Nat) : ReqTrans s (.move sent read)
      { s with wire := s.wire.drop sent, replies := s.replies.take read }
  | quit : s.io = .idle → ReqTrans s .quit { s with io := .gone }
  | looked (worker : Worker) : s.worker ≠ .gone → ReqTrans s .work { s with worker }
  | delivered {e : Completion × Outcome} {rest : List (Completion × Outcome)} :
      s.worker = .drain → s.completions_to_process = e :: rest →
      ReqTrans s .work { s with completions_to_process := rest, completed := s.completed ++ [e] }
  | close : ReqTrans s .close { s with close_requested := true }
  | free : s.close_requested = true →
      ReqTrans s .free { s.free_completions ZCLOSING with freed := true }

theorem reqTrans_process {s s' : Requests} (h : s.step .process = some s') :
    ReqTrans s .process s' := by
  simp only [Requests.step] at h
  split at h
  · rename_i hio
    split at h
    · cases h
    · rename_i xid err replies hrep
      split at h
      · rename_i hsp
        cases h
        exact .special hio.2 hrep hsp
      · rename_i hsp
        split at h
        · rename_i hsent
          split at h
          · rename_i hclose
            cases h
            exact .late hio.2 hrep (by simpa using hsp) hsent hclose
          · cases h
        · rename_i c rest hsent
          cases h
          exact .taken hio.2 hrep (by simpa using hsp) hsent
  · cases h

theorem reqTrans_work {s s' : Requests} (h : s.step .work = some s') : ReqTrans s .work s' := by
  simp only [Requests.step] at h
  split at h
  · rename_i hw
    cases h
    exact .looked _ (by simp [hw])
  · rename_i hw
    split at h
    · cases h
      exact .looked _ (by simp [hw])
    · cases h
  · rename_i hw
    split at h
    · cases h
      exact .looked _ (by simp [hw])
    · rename_i e rest hq
      cases h
      exact .delivered hw hq
  · cases h

theorem reqTrans_of_step {s s' : Requests} {a : ReqAct} (h : s.step a = some s') :
    ReqTrans s a s' := by
  cases a with
  | process => exact reqTrans_process h
  | work => exact reqTrans_work h
  | call now =>
    simp only [Requests.step] at h
    split at h
    · cases h
    · rename_i hu
      cases h
      exact .call now (by simpa using hu)
  | add k sync =>
    simp only [Requests.step] at h
    split at h
    · cases h
    · rename_i xid hk
      split at h
      · rename_i hc
        cases h
        exact .refused hk hc
      · rename_i hc
        cases h
        exact .added hk (by simpa using hc)
  | answer err =>
    simp only [Requests.step] at h
    split at h
    · cases h
    · rename_i xid wire hw
      cases h
      exact .answer err hw
  | event xid =>
    simp only [Requests.step] at h
    split at h
    · rename_i hsp
      cases h
      exact .event hsp
    · cases h
  | forge xid err =>
    cases h
    exact .forge xid err
  | finish =>
    simp only [Requests.step] at h
    split at h
    · rename_i c xid err hio
      split at h
      · rename_i hx
        cases h
        exact .finish hio hx
      · cases h
    · cases h
  | putBack =>
    simp only [Requests.step] at h
    split at h
    · rename_i c xid err hio
      split at h
      · cases h
      · rename_i hx
        cases h
        exact .putBack hio hx
    · cases h
  | lose rc =>
    simp only [Requests.step] at h
    split at h
    · rename_i hio
      cases h
      exact .lose hio
    · cases h
  | die rc =>
    simp only [Requests.step] at h
    split at h
    · rename_i hio
      cases h
      exact .die hio.1
    · cases h
  | move sent read =>
    cases h
    exact .move sent read
  | quit =>
    simp only [Requests.step] at h
    split at h
    · rename_i hio
      cases h
      exact .quit hio.1
    · cases h
  | close =>
    cases h
    exact .close
  | free =>
    simp only [Requests.step] at h
    split at h
    · rename_i hc
      cases h
      exact .free hc
    · cases h

/-! ## Each completion is called once -/

/-- The entry that the I/O thread has in its hands. -/
def Io.held : Io → List Completion
  | .holds c _ _ => [c]
  | _ => []

/-- The entries that wait for an outcome. -/
def Requests.outstanding (s : Requests) : List Completion := s.io.held ++ s.sent_requests

/-- The entries that have their outcome: called, or left to the completion thread. -/
def Requests.concluded (s : Requests) : List (Completion × Outcome) :=
  s.completed ++ s.completions_to_process

theorem concluded_conclude (s : Requests) (es : List (Completion × Outcome)) :
    (s.conclude es).concluded.Perm (s.concluded ++ es) := by
  unfold Requests.conclude Requests.concluded
  simp only [List.append_assoc]
  refine List.Perm.append_left _ ?_
  have hsplit := List.filter_append_perm (fun e => e.1.sync) es
  refine (List.perm_append_comm_assoc _ _ _).trans ?_
  exact hsplit.append_left _

/-- Only what is not synchronous is queued. -/
theorem mem_left_conclude {s : Requests} {es : List (Completion × Outcome)}
    (h : ∀ e ∈ s.completions_to_process, e.1.sync = false) :
    ∀ e ∈ (s.conclude es).completions_to_process, e.1.sync = false := by
  intro e he
  rcases List.mem_append.mp he with he | he
  · exact h e he
  · simpa using (List.mem_filter.mp he).2

/-- The entries that came so far, concluded or waiting, are all those that were issued,
each one time. A reply is only given to a request with its xid. Only what is not
synchronous is left to the completion thread. After the close nothing is left in the queue
but what the I/O thread is about to give up itself. -/
structure Requests.Sound (s : Requests) : Prop where
  once : ((s.concluded.map Prod.fst ++ s.outstanding).map Completion.id).Perm (List.range s.issued)
  fits : ∀ c xid err, (c, Outcome.reply xid err) ∈ s.concluded → xid = c.xid
  left : ∀ e ∈ s.completions_to_process, e.1.sync = false
  closed : s.freed = true → s.close_requested = true
  empty : s.freed = true → (∀ rc, s.io ≠ .failing rc) → s.sent_requests = []

theorem Requests.sound_free {s : Requests} (h : s.Sound) (rc : Int) :
    (s.free_completions rc).Sound := by
  have hall := concluded_conclude s (s.sent_requests.map fun c => (c, .reason rc))
  refine ⟨?_, ?_, mem_left_conclude h.left, h.closed, fun _ _ => rfl⟩
  · refine List.Perm.trans (List.Perm.map _ ?_) h.once
    refine ((hall.map Prod.fst).append_right _).trans ?_
    simp only [Requests.free_completions, Requests.conclude, Requests.outstanding, List.map_append,
      List.map_map, Function.comp_def, List.map_id', List.append_nil, List.append_assoc]
    exact List.Perm.append_left _ List.perm_append_comm
  · intro c xid err hm
    rcases List.mem_append.mp (hall.mem_iff.mp hm) with hm | hm
    · exact h.fits c xid err hm
    · simp at hm

theorem Requests.sound_trans {s s' : Requests} {a : ReqAct} (h : s.Sound) (ht : ReqTrans s a s') :
    s'.Sound := by
  obtain ⟨once, fits, left, closed, empty⟩ := h
  unfold Requests.outstanding at once
  cases ht with
  | call _ _ => exact ⟨once, fits, left, closed, empty⟩
  | refused _ _ => exact ⟨once, fits, left, closed, empty⟩
  | added _ hc =>
    refine ⟨?_, fits, left, closed, ?_⟩
    · rw [List.range_succ]
      unfold Requests.outstanding
      simp only [← List.append_assoc, List.map_append, List.map_cons, List.map_nil] at once ⊢
      exact once.append_right _
    · intro hf
      simp [closed hf] at hc
  | answer err _ => exact ⟨once, fits, left, closed, empty⟩
  | event _ => exact ⟨once, fits, left, closed, empty⟩
  | forge xid err => exact ⟨once, fits, left, closed, empty⟩
  | special _ _ _ => exact ⟨once, fits, left, closed, empty⟩
  | late _ _ _ _ _ => exact ⟨once, fits, left, closed, empty⟩
  | taken hio _ _ hsent =>
    refine ⟨?_, fits, left, closed, ?_⟩
    · rw [hio, hsent] at once
      exact once
    · intro hf _
      have := empty hf (by simp [hio])
      simp [this] at hsent
  | @finish c xid err hio hx =>
    have hall := concluded_conclude s [(c, .reply xid err)]
    refine ⟨?_, ?_, mem_left_conclude left, closed, ?_⟩
    · rw [hio] at once
      refine (List.Perm.map _ ((hall.map Prod.fst).append_right _)).trans ?_
      simpa [Io.held, Requests.outstanding, Requests.conclude] using once
    · intro d x e hm
      rcases List.mem_append.mp (hall.mem_iff.mp hm) with hm | hm
      · exact fits d x e hm
      · simp only [List.mem_singleton, Prod.mk.injEq, Outcome.reply.injEq] at hm
        obtain ⟨rfl, rfl, -⟩ := hm
        exact hx.symm
    · intro hf _
      exact empty hf (by simp [hio])
  | putBack hio hx =>
    refine ⟨?_, fits, left, closed, ?_⟩
    · rw [hio] at once
      exact once
    · intro _ hne
      exact absurd rfl (hne ZRUNTIMEINCONSISTENCY)
  | @lose rc hio =>
    obtain ⟨ho, hf, hl, hc, -⟩ := Requests.sound_free ⟨once, fits, left, closed, empty⟩ rc
    refine ⟨?_, hf, hl, hc, fun _ _ => rfl⟩
    have hheld : s.io.held = [] := by rcases hio with hio | hio <;> rw [hio] <;> rfl
    unfold Requests.outstanding at ho ⊢
    rw [show (s.free_completions rc).io = s.io from rfl, hheld] at ho
    exact ho
  | @die rc hio =>
    obtain ⟨ho, hf, hl, hc, -⟩ := Requests.sound_free ⟨once, fits, left, closed, empty⟩ rc
    exact ⟨ho, hf, hl, hc, fun _ _ => rfl⟩
  | move sent read => exact ⟨once, fits, left, closed, empty⟩
  | quit hio =>
    rw [hio] at once
    exact ⟨once, fits, left, closed, fun hf _ => empty hf (by simp [hio])⟩
  | looked _ _ => exact ⟨once, fits, left, closed, empty⟩
  | @delivered e rest _ hq =>
    -- The entry goes from the front of one list to the end of the other.
    have hall : s.completed ++ [e] ++ rest = s.concluded := by
      simp [Requests.concluded, hq]
    refine ⟨?_, ?_, ?_, closed, empty⟩
    · show (((s.completed ++ [e] ++ rest).map Prod.fst ++ (s.io.held ++ s.sent_requests)).map
        Completion.id).Perm _
      rw [hall]
      exact once
    · intro c xid err hm
      exact fits c xid err (hall ▸ hm)
    · exact fun d hd => left d (hq ▸ List.mem_cons_of_mem _ hd)
  | close => exact ⟨once, fits, left, fun _ => rfl, empty⟩
  | free hclose =>
    obtain ⟨ho, hf, hl, -, -⟩ := Requests.sound_free ⟨once, fits, left, closed, empty⟩ ZCLOSING
    exact ⟨ho, hf, hl, fun _ => hclose, fun _ _ => rfl⟩

theorem Requests.sound_of_reach {s : Requests} (h : requests.Reach s) : s.Sound := by
  refine System.Reach.invariant (P := Requests.Sound) ?_ ?_ h
  · rintro s ⟨-, hclose, hfreed, hio, -, -, -, hissued, hsent, -, -, hleft, hcomp⟩
    refine ⟨?_, ?_, ?_, ?_, fun _ _ => hsent⟩
    · simp [Requests.outstanding, Requests.concluded, hio, hsent, hcomp, hleft, hissued, Io.held]
    · simp [Requests.concluded, hcomp, hleft]
    · simp [hleft]
    · simp [hfreed]
  · exact fun _ _ _ hi hs => Requests.sound_trans hi (reqTrans_of_step hs)

/-- Nobody takes an entry from the completion thread. -/
theorem left_trans {s s' : Requests} {a : ReqAct} (ht : ReqTrans s a s') (hw : s.worker = .gone) :
    s'.worker = .gone ∧ s.completions_to_process <+: s'.completions_to_process := by
  cases ht with
  | looked _ hne => exact absurd hw hne
  | delivered hd _ => simp [hw] at hd
  | finish _ _ => exact ⟨hw, List.prefix_append _ _⟩
  | lose _ => exact ⟨hw, List.prefix_append _ _⟩
  | die _ => exact ⟨hw, List.prefix_append _ _⟩
  | free _ => exact ⟨hw, List.prefix_append _ _⟩
  | _ => exact ⟨hw, List.prefix_rfl⟩

theorem left_run {as : List ReqAct} {s s' : Requests} (h : requests.run s as = some s')
    (hw : s.worker = .gone) : s.completions_to_process <+: s'.completions_to_process := by
  have hstep : ∀ t a t', True →
      t.worker = .gone ∧ s.completions_to_process <+: t.completions_to_process →
      requests.step t a = some t' →
      t'.worker = .gone ∧ s.completions_to_process <+: t'.completions_to_process := by
    rintro t a t' - ⟨ht, hle⟩ hs
    obtain ⟨ht', hle'⟩ := left_trans (reqTrans_of_step hs) ht
    exact ⟨ht', hle.trans hle'⟩
  exact (System.run_keeps hstep (fun _ _ => trivial) ⟨hw, List.prefix_rfl⟩ h).2

/-- Each request that was issued is called one time, is queued for the completion thread,
or still waits, and never two of these. A reply goes to the request whose xid it bears. When
`zookeeper_close` has given up the queue and the I/O thread has ended, none waits: each one
is called, or it is not synchronous and queued. What is queued when the completion thread
has ended stays so. -/
theorem every_request_is_completed_once {s : Requests} (h : requests.Reach s) :
    (∀ n < s.issued, (s.completed.map fun e => e.1.id).count n +
        (s.completions_to_process.map fun e => e.1.id).count n +
        (s.outstanding.map Completion.id).count n = 1) ∧
      (∀ c xid err, (c, Outcome.reply xid err) ∈ s.completed → xid = c.xid) ∧
      (s.freed = true → s.io = .gone → ∀ n < s.issued,
        (s.completed.map fun e => e.1.id).count n = 1 ∨
          ∃ e ∈ s.completions_to_process, e.1.id = n ∧ e.1.sync = false) ∧
      (s.worker = .gone → ∀ as s', requests.run s as = some s' →
        s.completions_to_process <+: s'.completions_to_process) := by
  obtain ⟨once, fits, left, closed, empty⟩ := Requests.sound_of_reach h
  have hcount : ∀ n < s.issued, (s.completed.map fun e => e.1.id).count n +
      (s.completions_to_process.map fun e => e.1.id).count n +
      (s.outstanding.map Completion.id).count n = 1 := by
    intro n hn
    have hp := once.count_eq n
    rw [Requests.concluded, List.map_append, List.map_append, List.map_append, List.count_append,
      List.count_append, List.map_map, List.map_map, List.count_range] at hp
    simpa [hn, Function.comp_def] using hp
  refine ⟨hcount, ?_, ?_, fun hw as s' hr => left_run hr hw⟩
  · exact fun c xid err hm => fits c xid err (List.mem_append_left _ hm)
  · intro hf hio n hn
    have hout : s.outstanding = [] := by
      rw [Requests.outstanding, hio, empty hf (by simp [hio])]
      rfl
    have hsum := hcount n hn
    rw [hout] at hsum
    by_cases hq : (s.completions_to_process.map fun e => e.1.id).count n = 0
    · exact .inl (by simpa [hq] using hsum)
    · obtain ⟨e, he, hid⟩ := List.mem_map.mp (List.count_pos_iff.mp (Nat.pos_of_ne_zero hq))
      exact .inr ⟨e, he, hid, left e he⟩

/-- A handle right after `zookeeper_init`, in the second 1000. -/
def Requests.opened : Requests :=
  { unrecoverable := false, close_requested := false, freed := false, io := .idle, worker := .check,
    xid := 1000, calls := [], issued := 0, sent_requests := [], wire := [], replies := [],
    completions_to_process := [], completed := [] }

theorem Requests.start_opened : requests.start .opened :=
  ⟨rfl, rfl, rfl, rfl, rfl, by decide, rfl, rfl, rfl, rfl, rfl, rfl, rfl⟩

/-- One request is answered, and the other one is given up by the close. The completion
thread waits for an entry all the time and calls it. -/
theorem two_requests_are_completed_once :
    ∃ s, requests.Reach s ∧ s.issued = 2 ∧ s.freed = true ∧ s.io = .gone ∧
      s.completions_to_process = [] ∧
      ∀ n < 2, (s.completed.map fun e => e.1.id).count n = 1 := by
  obtain ⟨s, hs, ht⟩ := System.Reach.of_run (M := requests) (s := .opened)
    ([.work, .call 0, .call 0, .add 1 true, .add 0 false, .answer 0, .process, .finish, .close,
      .quit, .free, .work, .work, .work, .work])
    (fun s => s.issued == 2 && s.freed && s.io == .gone && s.completions_to_process.isEmpty)
    Requests.start_opened (by decide)
  simp only [Bool.and_eq_true, beq_iff_eq, List.isEmpty_iff] at ht
  obtain ⟨⟨⟨h1, h2⟩, h3⟩, h4⟩ := ht
  refine ⟨s, hs, h1, h2, h3, h4, fun n hn => ?_⟩
  rcases (every_request_is_completed_once hs).2.2.1 h2 h3 n (h1 ▸ hn) with hc | ⟨e, he, -⟩
  · exact hc
  · simp [h4] at he

-- A close between two entries: the completion thread ends at the test of its loop, and the
-- entry that is given up after that is never called.
example : ∃ s, requests.Reach s ∧ s.freed = true ∧ s.worker = .gone ∧
    s.completions_to_process = [({ id := 0, xid := 1000, sync := false }, .reason ZCLOSING)] := by
  obtain ⟨s, hs, ht⟩ := System.Reach.of_run (M := requests) (s := .opened)
    ([.call 0, .add 0 false, .close, .work, .free])
    (fun s => s.freed && s.worker == .gone && s.completions_to_process ==
      [({ id := 0, xid := 1000, sync := false }, .reason ZCLOSING)])
    Requests.start_opened (by decide)
  simp only [Bool.and_eq_true, beq_iff_eq] at ht
  exact ⟨s, hs, ht.1.1, ht.1.2, ht.2⟩

/-! ## A server that answers in order -/

/-- The server sends nothing that it was not asked, the xids do not overflow, and the
list of servers does not change while a request is on its way. -/
def orderly (s : Requests) : ReqAct → Prop
  | .forge _ _ => False
  | .call _ => s.xid + 1 < 2 ^ 31
  | .move sent read => sent = 0 ∧ s.replies.length ≤ read
  | _ => True

instance (s : Requests) : (a : ReqAct) → Decidable (orderly s a)
  | .forge _ _ => .isFalse id
  | .call _ => inferInstanceAs (Decidable (s.xid + 1 < 2 ^ 31))
  | .move sent read => inferInstanceAs (Decidable (sent = 0 ∧ s.replies.length ≤ read))
  | .add _ _ | .answer _ | .event _ | .process | .finish | .putBack | .lose _ | .die _ | .quit
  | .work | .close | .free => .isTrue trivial

/-- The replies on their way that answer a request. -/
def Requests.due (s : Requests) : List Int := (s.replies.map Prod.fst).filter fun x => !isSpecial x

/-- What waits is what the server has still to answer, in order. -/
structure Requests.Orderly (s : Requests) : Prop where
  xid : 0 ≤ s.xid ∧ s.xid < 2 ^ 31
  calls : ∀ x ∈ s.calls, 0 ≤ x
  wire : ∀ x ∈ s.wire, 0 ≤ x
  closed : s.freed = true → s.close_requested = true
  queue : s.freed = false → s.sent_requests.map Completion.xid = s.due ++ s.wire
  empty : s.freed = true → s.sent_requests = []
  sane : ∀ rc, s.io ≠ .failing rc
  held : ∀ c xid err, s.io = .holds c xid err → c.xid = xid

theorem not_isSpecial {x : Int} (h : 0 ≤ x) : isSpecial x = false := by
  have h1 : x ≠ -1 := by omega
  have h2 : x ≠ -2 := by omega
  have h4 : x ≠ -4 := by omega
  have h8 : x ≠ -8 := by omega
  simp [isSpecial, PING_XID, WATCHER_EVENT_XID, SET_WATCHES_XID, AUTH_XID, h1, h2, h4, h8]

theorem Requests.orderly_cleanup {s : Requests} (h : s.Orderly) (rc : Int) :
    (s.cleanup_bufs rc).Orderly := by
  obtain ⟨hx, calls, wire, closed, queue, empty, sane, held⟩ := h
  exact ⟨hx, calls, by simp [Requests.cleanup_bufs], closed, fun _ => rfl, fun _ => rfl, sane, held⟩

theorem Requests.orderly_trans {s s' : Requests} {a : ReqAct} (h : s.Orderly) (hg : orderly s a)
    (ht : ReqTrans s a s') : s'.Orderly := by
  obtain ⟨hx, calls, wire, closed, queue, empty, sane, held⟩ := h
  cases ht with
  | call now _ =>
    have hlt : s.xid + 1 < 2 ^ 31 := hg
    have hget : get_xid s.xid now = s.xid := if_neg (by omega)
    have hnext : toInt (s.xid + 1) = s.xid + 1 := toInt_eq_self (by omega) hlt
    rw [hget]
    refine ⟨by simp only [hnext]; omega, ?_, wire, closed, queue, empty, sane, held⟩
    intro x hm
    rcases List.mem_append.mp hm with hm | hm
    · exact calls x hm
    · rw [List.mem_singleton.mp hm]
      exact hx.1
  | refused _ _ =>
    exact ⟨hx, fun x hm => calls x (List.mem_of_mem_eraseIdx hm), wire, closed, queue, empty, sane,
      held⟩
  | added hk hc =>
    have hfreed : s.freed = false := by
      by_contra hf
      simp [closed (by simpa using hf)] at hc
    refine ⟨hx, fun x hm => calls x (List.mem_of_mem_eraseIdx hm), ?_, closed, ?_, ?_, sane, held⟩
    · intro x hm
      rcases List.mem_append.mp hm with hm | hm
      · exact wire x hm
      · rw [List.mem_singleton.mp hm]
        exact calls _ (List.mem_of_getElem? hk)
    · intro _
      simp only [List.map_append, queue hfreed, List.append_assoc, Requests.due, List.map_cons,
        List.map_nil]
    · simp [hfreed]
  | @answer xid rest err hw =>
    have hreg : isSpecial xid = false := not_isSpecial (wire xid (by simp [hw]))
    refine ⟨hx, calls, fun x hm => wire x (by simp [hw, hm]), closed, ?_, empty, sane, held⟩
    intro hf
    rw [queue hf, hw]
    simp [Requests.due, hreg]
  | event hsp =>
    refine ⟨hx, calls, wire, closed, ?_, empty, sane, held⟩
    intro hf
    rw [queue hf]
    simp [Requests.due, hsp]
  | forge xid err => exact absurd hg id
  | special hio hrep hsp =>
    refine ⟨hx, calls, wire, closed, ?_, empty, sane, held⟩
    intro hf
    rw [queue hf]
    simp [Requests.due, hrep, hsp]
  | late hio hrep hsp hsent hclose =>
    refine ⟨hx, calls, wire, closed, ?_, empty, sane, held⟩
    intro hf
    have hq := queue hf
    simp [hsent, Requests.due, hrep, hsp] at hq
  | @taken xid err replies c rest hio hrep hsp hsent =>
    -- The oldest reply is for the oldest entry.
    have hfreed : s.freed = false := by
      by_contra hf
      simp [empty (by simpa using hf)] at hsent
    have hq := queue hfreed
    simp only [hsent, Requests.due, hrep, List.map_cons, List.filter_cons, hsp, Bool.not_false,
      if_true, List.cons_append, List.cons.injEq] at hq
    refine ⟨hx, calls, wire, closed, fun _ => hq.2, ?_, by simp, ?_⟩
    · simp [hfreed]
    · intro d x e hd
      cases hd
      exact hq.1
  | finish hio hx' => exact ⟨hx, calls, wire, closed, queue, empty, by simp, by simp⟩
  | putBack hio hne => exact absurd (held _ _ _ hio) hne
  | @lose rc hio =>
    obtain ⟨hx, calls, wire, closed, queue, empty, -, -⟩ :=
      Requests.orderly_cleanup ⟨hx, calls, wire, closed, queue, empty, sane, held⟩ rc
    exact ⟨hx, calls, wire, closed, queue, empty, by simp, by simp⟩
  | @die rc hio =>
    obtain ⟨hx, calls, wire, closed, queue, empty, sane, held⟩ :=
      Requests.orderly_cleanup ⟨hx, calls, wire, closed, queue, empty, sane, held⟩ rc
    exact ⟨hx, calls, wire, closed, queue, empty, sane, held⟩
  | move sent read =>
    obtain ⟨rfl, hread⟩ := hg
    rw [List.drop_zero, List.take_of_length_le hread]
    exact ⟨hx, calls, wire, closed, queue, empty, sane, held⟩
  | quit hio => exact ⟨hx, calls, wire, closed, queue, empty, by simp, by simp⟩
  | looked _ _ => exact ⟨hx, calls, wire, closed, queue, empty, sane, held⟩
  | delivered _ _ => exact ⟨hx, calls, wire, closed, queue, empty, sane, held⟩
  | close => exact ⟨hx, calls, wire, fun _ => rfl, queue, empty, sane, held⟩
  | free hclose =>
    exact ⟨hx, calls, wire, fun _ => hclose, by simp, fun _ => rfl, sane, held⟩

theorem Requests.orderly_of_reach {s : Requests} (h : requests.ReachBy orderly s) : s.Orderly := by
  refine System.ReachBy.invariant (P := Requests.Orderly) ?_ ?_ h
  · rintro s ⟨-, hclose, hfreed, hio, -, hx, hcalls, -, hsent, hwire, hrep, -, -⟩
    refine ⟨hx, ?_, ?_, ?_, ?_, fun _ => hsent, ?_, ?_⟩
    · simp [hcalls]
    · simp [hwire]
    · simp [hfreed]
    · simp [hsent, hwire, hrep, Requests.due]
    · simp [hio]
    · simp [hio]
  · exact fun _ _ _ hi hg hs => Requests.orderly_trans hi hg (reqTrans_of_step hs)

/-- With such a server and such a list no reply is taken for out of order, and no reply
finds the queue empty before a close: the assertion of `zookeeper_process` holds. -/
theorem an_orderly_server_is_never_out_of_order {s : Requests} (h : requests.ReachBy orderly s) :
    (∀ rc, s.io ≠ .failing rc) ∧ (∀ c xid err, s.io = .holds c xid err → c.xid = xid) ∧
      (s.io = .idle → s.unrecoverable = false → s.replies ≠ [] → (s.step .process).isSome) := by
  obtain ⟨-, -, -, closed, queue, empty, sane, held⟩ := Requests.orderly_of_reach h
  refine ⟨sane, held, ?_⟩
  intro hio hu hrep
  obtain ⟨⟨xid, err⟩, replies, hr⟩ := List.exists_cons_of_ne_nil hrep
  simp only [Requests.step, hio, hu, hr, and_self, if_true]
  cases hsp : isSpecial xid with
  | true => simp
  | false =>
    cases hsent : s.sent_requests with
    | cons c rest => simp
    | nil =>
      -- A queue that is empty in spite of a reply was given up by the close.
      have hf : s.freed = true := by
        by_contra hf
        have hq := queue (by simpa using hf)
        simp [hsent, Requests.due, hr, hsp] at hq
      simp [closed hf]

/-- Two replies with a ping reply between them. -/
theorem two_replies_and_a_ping_are_in_order :
    ∃ s, requests.ReachBy orderly s ∧ s.replies ≠ [] ∧ s.io = .idle ∧
      (s.step .process).isSome := by
  obtain ⟨s, hs, ht⟩ := System.ReachBy.of_run (M := requests) (G := orderly) (s := .opened)
    ([.call 0, .call 0, .add 1 true, .add 0 false, .answer 0, .event PING_XID, .answer 0, .process,
      .finish, .process])
    (fun s => !s.replies.isEmpty && s.io == .idle && !s.unrecoverable)
    (.start Requests.start_opened) (by decide)
  simp only [Bool.and_eq_true, beq_iff_eq, Bool.not_eq_true', List.isEmpty_eq_false_iff] at ht
  obtain ⟨⟨h1, h2⟩, h3⟩ := ht
  exact ⟨s, hs, h1, h2, (an_orderly_server_is_never_out_of_order hs).2.2 h2 h3 h1⟩

-- A list that changes with one request out: the answer to the next request is taken for
-- an answer to the one that was lost.
example : ∃ s, requests.Reach s ∧ ∃ c, c.id = 0 ∧ s.io = .holds c 1001 0 ∧ c.xid = 1000 := by
  obtain ⟨s, hs, ht⟩ := System.Reach.of_run (M := requests) (s := .opened)
    ([.call 0, .add 0 false, .move 1 0, .call 0, .add 0 false, .answer 0, .process])
    (fun s => s.io == .holds { id := 0, xid := 1000, sync := false } 1001 0)
    Requests.start_opened (by decide)
  exact ⟨s, hs, _, rfl, by simpa using ht, rfl⟩

end ZookZhubei
