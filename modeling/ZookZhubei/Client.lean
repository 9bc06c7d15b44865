-- The part of the ZooKeeper C client that `zookbag` rests on: the result
-- codes, the states of a handle, the check of a path, and what the I/O
-- thread does to a handle. See `zookeeper.c` and `zookeeper.h`.
import Mathlib.Logic.Function.Basic
import Mathlib.Tactic.Common

namespace ZookZhubei

/-- A `std::string`, or a C string without its final zero: its bytes. -/
abbrev Str := List UInt8

/-- The bytes of a literal. Every literal of the source is ASCII. -/
def str (s : String) : Str := s.toList.map fun c => UInt8.ofNat c.toNat

/-! ## Result codes -/

def ZOK : Int := 0
def ZSYSTEMERROR : Int := -1
def ZRUNTIMEINCONSISTENCY : Int := -2
def ZDATAINCONSISTENCY : Int := -3
def ZCONNECTIONLOSS : Int := -4
def ZMARSHALLINGERROR : Int := -5
def ZUNIMPLEMENTED : Int := -6
def ZOPERATIONTIMEOUT : Int := -7
def ZBADARGUMENTS : Int := -8
def ZINVALIDSTATE : Int := -9
def ZNEWCONFIGNOQUORUM : Int := -13
def ZRECONFIGINPROGRESS : Int := -14
def ZAPIERROR : Int := -100
def ZNONODE : Int := -101
def ZNOAUTH : Int := -102
def ZBADVERSION : Int := -103
def ZNOCHILDRENFOREPHEMERALS : Int := -108
def ZNODEEXISTS : Int := -110
def ZNOTEMPTY : Int := -111
def ZSESSIONEXPIRED : Int := -112
def ZINVALIDCALLBACK : Int := -113
def ZINVALIDACL : Int := -114
def ZAUTHFAILED : Int := -115
def ZCLOSING : Int := -116
def ZNOTHING : Int := -117
def ZSESSIONMOVED : Int := -118
def ZNOTREADONLY : Int := -119
def ZEPHEMERALONLOCALSESSION : Int := -120
def ZNOWATCHER : Int := -121
def ZRECONFIGDISABLED : Int := -123

/-- `zerror`. A positive code is an `errno`, and the client gives none. -/
def zerror (c : Int) : Str :=
  if c = ZOK then str "ok"
  else if c = ZSYSTEMERROR then str "system error"
  else if c = ZRUNTIMEINCONSISTENCY then str "run time inconsistency"
  else if c = ZDATAINCONSISTENCY then str "data inconsistency"
  else if c = ZCONNECTIONLOSS then str "connection loss"
  else if c = ZMARSHALLINGERROR then str "marshalling error"
  else if c = ZUNIMPLEMENTED then str "unimplemented"
  else if c = ZOPERATIONTIMEOUT then str "operation timeout"
  else if c = ZBADARGUMENTS then str "bad arguments"
  else if c = ZINVALIDSTATE then str "invalid zhandle state"
  else if c = ZNEWCONFIGNOQUORUM then
    str "no quorum of new config is connected and up-to-date with the leader of last commmitted "
      ++ str "config - try invoking reconfiguration after new servers are connected and synced"
  else if c = ZRECONFIGINPROGRESS then
    str "Another reconfiguration is in progress -- concurrent reconfigs not supported (yet)"
  else if c = ZAPIERROR then str "api error"
  else if c = ZNONODE then str "no node"
  else if c = ZNOAUTH then str "not authenticated"
  else if c = ZBADVERSION then str "bad version"
  else if c = ZNOCHILDRENFOREPHEMERALS then str "no children for ephemerals"
  else if c = ZNODEEXISTS then str "node exists"
  else if c = ZNOTEMPTY then str "not empty"
  else if c = ZSESSIONEXPIRED then str "session expired"
  else if c = ZINVALIDCALLBACK then str "invalid callback"
  else if c = ZINVALIDACL then str "invalid acl"
  else if c = ZAUTHFAILED then str "authentication failed"
  else if c = ZCLOSING then str "zookeeper is closing"
  else if c = ZNOTHING then str "(not error) no server responses to process"
  else if c = ZSESSIONMOVED then str "session moved to another server, so operation is ignored"
  else if c = ZNOTREADONLY then str "state-changing request is passed to read-only server"
  else if c = ZEPHEMERALONLOCALSESSION then
    str "attempt to create ephemeral node on a local session"
  else if c = ZNOWATCHER then str "the watcher couldn't be found"
  else if c = ZRECONFIGDISABLED then
    str "attempts to perform a reconfiguration operation when reconfiguration feature is disable"
  else str "unknown error"

/-! ## The states of a handle -/

/-- The values of `zhandle_t::state`. `closed` is the state 0 between two
connections. -/
inductive ZooState
  | closed
  | connecting
  | associating
  | connected
  | notConnected
  | expired
  | authFailed
deriving DecidableEq, Repr

/-- The state as the client stores it, `zk_adaptor.h`. -/
def ZooState.code : ZooState → Int
  | .closed => 0
  | .connecting => 1
  | .associating => 2
  | .connected => 3
  | .notConnected => 999
  | .expired => -112
  | .authFailed => -113

/-- A handle that no request can use again. -/
def is_unrecoverable (s : ZooState) : Bool := decide (s.code < 0)

@[simp] theorem is_unrecoverable_expired : is_unrecoverable .expired = true := rfl

/-! ## The check of a path -/

def slash : UInt8 := 47
def dot : UInt8 := 46

/-- The loop of `isValidPath` from `path[i]` on. `back2` is `path[i-2]` and
`lastc` is `path[i-1]`; the head of the rest is `path[i+1]`, and the end of
the list is the final zero. `seq` says that the mode is a sequential one. -/
def isValidPathFrom (seq : Bool) : UInt8 → UInt8 → Str → Bool
  | _, _, [] => true
  | back2, lastc, c :: rest =>
    let ends := (rest.isEmpty && !seq) || rest.head? == some slash
    if c == 0 then false
    else if c == slash && lastc == slash then false
    else if c == dot && lastc == dot then
      if back2 == slash && ends then false else isValidPathFrom seq lastc c rest
    else if c == dot then
      if lastc == slash && ends then false else isValidPathFrom seq lastc c rest
    else if 0 < c && c < 0x1f then false
    else isValidPathFrom seq lastc c rest

/-- `isValidPath` for a path that is not a null pointer. -/
def isValidPath (seq : Bool) (path : Str) : Bool :=
  match path with
  | [] => false
  | c :: rest =>
    if c != slash then false
    else if rest.isEmpty then true
    else if rest.getLast? == some slash && !seq then false
    else isValidPathFrom seq 0 slash rest

/-- `Request_path_init`: what a call answers before it queues a request. A
handle with a chroot is not modelled. -/
def Request_path_init (s : ZooState) (path : Str) : Int :=
  if !isValidPath false path then ZBADARGUMENTS
  else if is_unrecoverable s then ZINVALIDSTATE
  else ZOK

/-- Only a dead handle gives `ZINVALIDSTATE`. -/
theorem Request_path_init_recoverable {s : ZooState} (path : Str) (h : is_unrecoverable s = false) :
    Request_path_init s path = ZBADARGUMENTS ∨ Request_path_init s path = ZOK := by
  unfold Request_path_init
  rw [h]
  split
  · exact Or.inl rfl
  · exact Or.inr rfl

/-! ## A handle and its I/O thread -/

/-- The number of a session. -/
abbrev Session := Nat

/-- `zhandle_t`. `client_id` is `none` until the first handshake, as the id 0
of the source. `events` is the queue of session events for the completion
thread. -/
structure Handle where
  state : ZooState
  client_id : Option Session
  recv_timeout : Int
  events : List ZooState
deriving DecidableEq, Repr

/-- `zookeeper_init` with no client id. -/
def zookeeper_init (recv_timeout : Int) : Handle :=
  { state := .notConnected, client_id := none, recv_timeout, events := [] }

/-- What the program sees of a null handle: `zoo_state(NULL)` is 0. -/
def Handle.null : Handle :=
  { state := .closed, client_id := none, recv_timeout := 0, events := [] }

/-- `cleanup`: the socket is gone. Only a connected handle tells its watcher
that it is connecting again; a dead handle tells its own state. -/
def Handle.cleanup (h : Handle) : Handle :=
  if is_unrecoverable h.state then { h with events := h.events ++ [h.state] }
  else if h.state = .connected then { h with events := h.events ++ [.connecting], state := .closed }
  else { h with state := .closed }

/-- `zookeeper_interest` opens a socket, and the connect is under way. -/
def Handle.dial (h : Handle) : Option Handle :=
  if h.state = .closed ∨ h.state = .notConnected then some { h with state := .connecting } else none

/-- `prime_connection`: the handshake is sent. -/
def Handle.prime (h : Handle) : Option Handle :=
  if h.state = .connecting then some { h with state := .associating } else none

/-- `check_events` with an answer that names the session `s`. -/
def Handle.established (h : Handle) (s : Session) (timeOut : Int) : Handle :=
  { h with state := .connected, client_id := some s, recv_timeout := timeOut,
           events := h.events ++ [.connected] }

/-- `check_events` with an answer that names another session. -/
def Handle.expire (h : Handle) : Handle := Handle.cleanup { h with state := .expired }

@[simp] theorem Handle.expire_state (h : Handle) : h.expire.state = .expired := rfl

@[simp] theorem Handle.expire_client_id (h : Handle) : h.expire.client_id = h.client_id := rfl

@[simp] theorem Handle.cleanup_client_id (h : Handle) : h.cleanup.client_id = h.client_id := by
  unfold Handle.cleanup
  split_ifs <;> rfl

theorem Handle.cleanup_recoverable {h : Handle} (hs : is_unrecoverable h.state = false) :
    h.cleanup.state = .closed := by
  unfold Handle.cleanup
  simp only [hs, Bool.false_eq_true, if_false]
  split_ifs <;> rfl

/-- The codes that `handle_error` passes on when a connection goes. -/
def lossCodes : List Int :=
  [ZCONNECTIONLOSS, ZOPERATIONTIMEOUT, ZSYSTEMERROR, ZRUNTIMEINCONSISTENCY]

end ZookZhubei
