-- One process: `MyApp::run` and `MyApp::work` in the main thread, the session
-- callbacks in the completion thread, and the handle that both share. Each
-- action is one statement of a thread. See `MyApp.cpp`.
import ZookZhubei.Zookbag

namespace ZookZhubei

/-- The arguments of `MyApp` and of `create_session`. -/
structure Config where
  master_path : Str
  master_data : Str
  zk_parent_path : Str
  zk_node_name : Str
  zk_node_data : Str
  zk_nodes : Str
  session_timeout_seconds : Int
deriving DecidableEq, Repr

/-- Where `on_zookeeper_session_connected` registers the process. -/
def Config.presencePath (c : Config) : Str := nodePath c.zk_parent_path c.zk_node_name

/-! ## Requests -/

inductive Op
  | create (path data : Str)
  | get (path : Str)
  | exist (path : Str)
  | delete (path : Str)
deriving DecidableEq, Repr

def Op.path : Op → Str
  | .create p _ | .get p | .exist p | .delete p => p

/-- How far a synchronous call is: not yet in the client, past its check of the
state, in the queue, on the wire, answered by the server, or back in the
caller. -/
inductive Phase
  | entry
  | checked
  | queued
  | sent
  | replied (r : Reply)
  | returned (r : Reply)
deriving DecidableEq, Repr

/-- `free_completions`: every call in the queue or on the wire ends with `rc`.
A call that has only passed its check is not there yet. -/
def Phase.abort (rc : Int) : Phase → Phase
  | .entry => .entry
  | .checked => .checked
  | .returned r => .returned r
  | .queued | .sent | .replied _ => .returned (.err rc)

/-! ## The main thread -/

/-- How `run` came into `work`: it won the race, or it read `zk_1`. -/
inductive Via
  | raced
  | resumed
deriving DecidableEq, Repr

/-- The calls of `run` and `work`: `race_master`, `get_zk_data`, `is_zhu_exist`
and `delete_node`. For the statements below, a read keeps the node that lost
the race, and a delete keeps the answer of `zoo_exists`. -/
inductive Call
  | race
  | read (blocker : Option Znode)
  | exist (via : Via)
  | delete (via : Via) (zhu : Reply)
deriving DecidableEq, Repr

def Call.op (c : Config) : Call → Op
  | .race => .create c.master_path c.master_data
  | .read _ => .get c.master_path
  | .exist _ => .exist zhuPath
  | .delete _ _ => .delete c.master_path

/-- Where the main thread stands: at the loop test of `run`, in a call, after a
race that failed for another reason than a node, before `recreate_session`, at
"A master exists", at the sleep of `run`, at the loop test of `work`, before its
`is_connected`, in its `else` branch, after its delete, or at the end. -/
inductive Pc
  | head
  | call (c : Call) (ph : Phase)
  | failed (rc : Int)
  | recreate
  | standby (blocker : Option Znode)
  | pause
  | work (via : Via)
  | check (via : Via) (zhu : Reply)
  | idle (via : Via)
  | yielded (via : Via)
  | returned
  | threw (e : Exn)
deriving DecidableEq, Repr

def Pc.abort (rc : Int) : Pc → Pc
  | .call c ph => .call c (ph.abort rc)
  | pc => pc

/-- Where `run` goes on after `work`: only the second way sleeps. -/
def afterWork : Via → Pc
  | .raced => .head
  | .resumed => .pause

/-- What `run` and `work` do with the result of a call. -/
def resume (c : Config) : Call → Reply → Pc
  | .race, r =>
    let (won, zk_errcode, _) := race_master r.rc
    if won then .work .raced
    else if node_exists_exception zk_errcode then .call (.read r.seen) .entry
    else .failed zk_errcode
  | .read blocker, r =>
    match get_zk_data c.master_path 512 r with
    | .ok (zk_data, _) => if zk_data = zk_1 then .work .resumed else .standby blocker
    | .error e => .threw e
  | .exist via, r => if is_zhu_exist r.rc then .check via r else .idle via
  | .delete via _, r =>
    match delete_node c.master_path r.rc with
    | .ok _ => .yielded via
    | .error e => .threw e

section
variable {c : Config} {b : Option Znode} {r : Reply}

theorem resume_read_some {d : Str} (hr : r.rc = ZOK) (hd : r.data = some d) :
    resume c (.read b) r = if d = zk_1 then .work .resumed else .standby b := by
  simp only [resume, get_zk_data_512, hr, hd, if_true, take_512_eq_zk_1]

theorem resume_read_null (hr : r.rc = ZOK) (hd : r.data = none) :
    resume c (.read b) r = .threw .length_error := by
  simp only [resume, get_zk_data_512, hr, hd, if_true]

theorem resume_read_error (hr : r.rc ≠ ZOK) :
    resume c (.read b) r = .threw (getFailed c.master_path r.rc) := by
  simp only [resume, get_zk_data_512, hr, if_false]

theorem resume_delete_error {via : Via} {zhu : Reply} (hr : r.rc ≠ ZOK) :
    resume c (.delete via zhu) r = .threw (deleteFailed c.master_path r.rc) := by
  simp [resume, delete_node, hr]

end

/-! ## The process -/

/-- The completion thread: idle, or in `create_node` of a session callback. -/
inductive Cb
  | idle
  | call (ph : Phase)
deriving DecidableEq, Repr

def Cb.abort (rc : Int) : Cb → Cb
  | .idle => .idle
  | .call ph => .call (ph.abort rc)

/-- An observer of the session callback: `running` since the latest one began,
`done` since it ended, and `off` once the connection is lost. -/
inductive Reg
  | off
  | running
  | done
deriving DecidableEq, Repr

structure Inst where
  pc : Pc
  stop : Bool
  h : Handle
  start_connect_time : Int
  cb : Cb
  reg : Reg
deriving DecidableEq, Repr

/-- A process that has just called `create_session` and `run`. -/
def Inst.fresh (c : Config) : Inst :=
  { pc := .head, stop := false, h := zookeeper_init (c.session_timeout_seconds * 1000),
    start_connect_time := 0, cb := .idle, reg := .off }

def Inst.expired (now : Int) (x : Inst) : Bool :=
  is_session_expired x.h.state x.start_connect_time now x.h.recv_timeout

/-- The start of a `zoo_` call: it is refused, or past its check. Nobody looks
at the state again before `queue_buffer_bytes`. -/
def enter (h : Handle) (path : Str) : Phase :=
  let rc := Request_path_init h.state path
  if rc = ZOK then .checked else .returned (.err rc)

theorem enter_of_ok {h : Handle} {path : Str} (hr : Request_path_init h.state path = ZOK) :
    enter h path = .checked := by
  simp [enter, hr]

theorem enter_of_ne {h : Handle} {path : Str} (hr : Request_path_init h.state path ≠ ZOK) :
    enter h path = .returned (.err (Request_path_init h.state path)) := by
  simp [enter, hr]

/-- The codes after which `run` calls `recreate_session`. -/
def goneCode (rc : Int) : Bool := session_expried_exception rc || invalid_handle_exception rc

/-- Where the next statement of `run` or `work` leads. A call that waits, and
`recreate_session`, are actions of their own. -/
def Inst.next (c : Config) (now : Int) (x : Inst) : Option Pc :=
  match x.pc with
  | .head => some (if x.stop then .returned else .call .race .entry)
  | .call k .entry => some (.call k (enter x.h (k.op c).path))
  | .call k .checked => some (.call k .queued)
  | .call k (.returned r) => some (resume c k r)
  | .failed rc => some (if goneCode rc then .recreate else .pause)
  | .standby _ => some .pause
  | .pause => some .head
  | .work via => some (if !x.stop && !x.expired now then .call (.exist via) .entry else afterWork via)
  | .check via zhu =>
    some (if is_connected x.h.state then .call (.delete via zhu) .entry else .idle via)
  | .idle via => some (.work via)
  | .yielded via => some (afterWork via)
  | .call _ _ | .recreate | .returned | .threw _ => none

def Inst.main (c : Config) (now : Int) (x : Inst) : Option Inst :=
  (x.next c now).map fun pc => { x with pc }

/-- `recreate_session`: the old handle is closed, with no client id kept, and
`init` is `none` for a new handle or the `errno` of a null one. The member
`_start_connect_time` stays. `zookeeper_close` ends a call of the callback that
waits, and refuses one that is not queued. -/
def Inst.recreate (c : Config) (init : Option (Int × Str)) (x : Inst) : Option Inst :=
  if x.pc = .recreate then
    match init with
    | none =>
      some { x with pc := .pause, h := zookeeper_init (c.session_timeout_seconds * 1000),
                    cb := .idle, reg := .off }
    | some (errno, text) =>
      some { x with pc := .threw (reconnectFailed c.zk_nodes errno text), h := .null,
                    cb := .idle, reg := .off }
  else none

/-- The next statement of the completion thread. A connected event runs
`zookeeper_session_connected` up to its `create_node`; a connecting event runs
`zookeeper_session_connecting`. The other events only print. -/
def Inst.completion (c : Config) (now : Int) (x : Inst) : Option Inst :=
  match x.cb with
  | .idle =>
    match x.h.events with
    | [] => none
    | .connected :: es =>
      some { x with h := { x.h with events := es }, start_connect_time := 0, cb := .call .entry,
                    reg := .running }
    | .connecting :: es =>
      some { x with h := { x.h with events := es }, start_connect_time := now }
    | _ :: es => some { x with h := { x.h with events := es } }
  | .call .entry => some { x with cb := .call (enter x.h c.presencePath) }
  | .call .checked => some { x with cb := .call .queued }
  | .call (.returned r) =>
    -- the handler catches the `int` of `create_node`, so both ways end here
    match create_node r.rc with
    | .ok _ | .error _ => some { x with cb := .idle, reg := if x.reg = .running then .done else x.reg }
  | .call _ => none

/-- The socket is lost: `handle_error` with `rc`. -/
def Inst.loss (rc : Int) (x : Inst) : Option Inst :=
  if rc ∈ lossCodes ∧ is_unrecoverable x.h.state = false then
    some { x with h := x.h.cleanup, pc := x.pc.abort rc, cb := x.cb.abort rc, reg := .off }
  else none

/-- The handshake names another session: every waiting call ends with
`ZSESSIONEXPIRED`. -/
def Inst.expire (x : Inst) : Inst :=
  { x with h := x.h.expire, pc := x.pc.abort ZSESSIONEXPIRED, cb := x.cb.abort ZSESSIONEXPIRED,
           reg := .off }

/-! ## The two threads alike -/

inductive Thread
  | main
  | completion
deriving DecidableEq, Repr

def Inst.phase (x : Inst) : Thread → Option Phase
  | .main => match x.pc with
    | .call _ ph => some ph
    | _ => none
  | .completion => match x.cb with
    | .call ph => some ph
    | .idle => none

def Inst.op (c : Config) (x : Inst) : Thread → Option Op
  | .main => match x.pc with
    | .call k _ => some (k.op c)
    | _ => none
  | .completion => match x.cb with
    | .call _ => some (.create c.presencePath c.zk_node_data)
    | .idle => none

def Inst.setPhase (x : Inst) (ph : Phase) : Thread → Inst
  | .main => match x.pc with
    | .call k _ => { x with pc := .call k ph }
    | _ => x
  | .completion => match x.cb with
    | .call _ => { x with cb := .call ph }
    | .idle => x

/-- The queued request goes out on a connected handle. -/
def Inst.send (t : Thread) (x : Inst) : Option Inst :=
  if x.phase t = some .queued ∧ x.h.state = .connected then some (x.setPhase .sent t) else none

/-- The answer arrives, and `notify_sync_completion` wakes the caller. -/
def Inst.receive (t : Thread) (x : Inst) : Option Inst :=
  match x.phase t with
  | some (.replied r) => if x.h.state = .connected then some (x.setPhase (.returned r) t) else none
  | _ => none

inductive Act
  | main
  | recreate (init : Option (Int × Str))
  | stop
  | completion
  | dial
  | prime
  | loss (rc : Int)
  | send (t : Thread)
  | receive (t : Thread)
  | restart
deriving DecidableEq, Repr

def Inst.step (c : Config) (now : Int) (x : Inst) : Act → Option Inst
  | .main => x.main c now
  | .recreate init => x.recreate c init
  | .stop => some { x with stop := true }
  | .completion => x.completion c now
  | .dial => x.h.dial.map fun h => { x with h }
  | .prime => x.h.prime.map fun h => { x with h }
  | .loss rc => x.loss rc
  | .send t => x.send t
  | .receive t => x.receive t
  | .restart => some (Inst.fresh c)

/-- The actions after which nobody waits for the answers on the wire. -/
def Act.drops : Act → Bool
  | .loss _ | .recreate _ | .restart => true
  | _ => false

end ZookZhubei
