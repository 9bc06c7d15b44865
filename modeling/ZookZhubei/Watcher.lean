-- The callback that the client calls from its completion thread, and the
-- handlers of `MyApp` behind it. Two of the handlers ask the server again. An
-- exception that leaves the callback ends the process. See `zookbag.cpp` and
-- `MyApp.cpp`.
import ZookZhubei.Deployment

namespace ZookZhubei

/-! ## The handlers -/

def ZOO_CHANGED_EVENT : Int := 3
def ZOO_SESSION_EVENT : Int := -1

def SIZE_4K : Int := 256
def SIZE_8K : Int := 512

section
variable (c : Config) (answer : Op → Reply)

/-- `on_zookeeper_session_connected` catches what `create_node` throws, and only
an `int`. -/
def on_zookeeper_session_connected : Except Exn Unit :=
  match create_node (answer (.create c.presencePath c.zk_node_data)).rc with
  | .ok _ => .ok ()
  | .error (.int _) => .ok ()
  | .error e => .error e

-- These only print.
def on_zookeeper_session_connecting : Except Exn Unit := .ok ()
def on_zookeeper_session_expired : Except Exn Unit := .ok ()
def on_zookeeper_session_event : Except Exn Unit := .ok ()

/-- `on_zookeeper_event` reads the node again, and catches nothing. -/
def on_zookeeper_event (type : Int) (path : Str) : Except Exn Unit :=
  if type = 3 then
    match get_zk_data path SIZE_4K (answer (.get path)) with
    | .ok _ => .ok ()
    | .error e => .error e
  else .ok ()

/-- `zk_watcher`, as far as it can throw. `answer` is what the server says to a
request that is made meanwhile. -/
def zk_watcher (type state : Int) (path : Str) : Except Exn Unit :=
  if type ≠ ZOO_SESSION_EVENT then on_zookeeper_event answer type path
  else if state = ZooState.expired.code then on_zookeeper_session_expired
  else if state = ZooState.connected.code then on_zookeeper_session_connected c answer
  else if state = ZooState.connecting.code then on_zookeeper_session_connecting
  else on_zookeeper_session_event

/-! ## What leaves the callback -/

/-- The only exception of `create_node` is the one that the handler catches. -/
theorem on_zookeeper_session_connected_returns :
    on_zookeeper_session_connected c answer = .ok () := by
  unfold on_zookeeper_session_connected create_node
  split_ifs <;> rfl

/-- Only a changed event makes the callback throw. -/
theorem zk_watcher_other {type : Int} (ht : type ≠ ZOO_CHANGED_EVENT) (state : Int) (path : Str) :
    zk_watcher c answer type state path = .ok () := by
  have h3 : ¬ type = 3 := ht
  unfold zk_watcher on_zookeeper_event
  rw [on_zookeeper_session_connected_returns]
  split_ifs <;> rfl

/-- What each answer to the read behind a changed event does. -/
theorem zk_watcher_changed (state : Int) (path : Str) :
    zk_watcher c answer ZOO_CHANGED_EVENT state path =
      if (answer (.get path)).rc = ZOK then
        if (answer (.get path)).data = none then .error .length_error else .ok ()
      else .error (getFailed path (answer (.get path)).rc) := by
  have hs : ZOO_CHANGED_EVENT ≠ ZOO_SESSION_EVENT := by decide
  have h3 : ZOO_CHANGED_EVENT = 3 := rfl
  unfold zk_watcher on_zookeeper_event
  rw [if_pos hs, if_pos h3, get_zk_data_eq]
  by_cases hr : (answer (.get path)).rc = ZOK
  · cases hd : (answer (.get path)).data <;> simp [hr]
  · simp [hr]

theorem zk_watcher_changed_returns_iff (state : Int) (path : Str) :
    zk_watcher c answer ZOO_CHANGED_EVENT state path = .ok () ↔
      (answer (.get path)).rc = ZOK ∧ (answer (.get path)).data ≠ none := by
  rw [zk_watcher_changed]
  split_ifs <;> simp [*]

/-- For every event, every configuration and every answer of the server: the
callback returns exactly when the event is not a change of a node, or the read
that follows finds the node, with data that is not null. -/
theorem zk_watcher_returns_iff (type state : Int) (path : Str) :
    zk_watcher c answer type state path = .ok () ↔
      (type = ZOO_CHANGED_EVENT →
        (answer (.get path)).rc = ZOK ∧ (answer (.get path)).data ≠ none) := by
  by_cases ht : type = ZOO_CHANGED_EVENT
  · subst ht
    rw [zk_watcher_changed_returns_iff]
    exact ⟨fun h _ => h, fun h => h rfl⟩
  · exact iff_of_true (zk_watcher_other c answer ht state path) fun h => absurd h ht

end

/-- The node is gone before the read, or holds no data. -/
theorem a_changed_event_throws :
    zk_watcher (World.ini zk_1 (str "test1")) (fun _ => .err ZNONODE) ZOO_CHANGED_EVENT
      ZooState.connected.code (str "/master") = .error (getFailed (str "/master") ZNONODE) ∧
    zk_watcher (World.ini zk_1 (str "test1")) (fun _ => { rc := ZOK, data := none })
      ZOO_CHANGED_EVENT ZooState.connected.code (str "/master") = .error .length_error := by
  constructor <;> decide

/-! ## The completion thread -/

/-- An event, and what the server answers while its callback runs. -/
structure Delivery where
  type : Int
  state : Int
  path : Str
  answer : Op → Reply

/-- One event after the other, up to the first that throws. -/
def deliverAll (c : Config) : List Delivery → Except Exn Unit
  | [] => .ok ()
  | d :: ds =>
    match zk_watcher c d.answer d.type d.state d.path with
    | .ok _ => deliverAll c ds
    | .error e => .error e

/-- The thread comes through every sequence of events in which each changed
node is still there, with data, when it is read. The first event for which
that fails ends the process, whatever comes after. -/
theorem deliverAll_returns_iff (c : Config) (ds : List Delivery) :
    deliverAll c ds = .ok () ↔
      ∀ d ∈ ds, d.type = ZOO_CHANGED_EVENT →
        (d.answer (.get d.path)).rc = ZOK ∧ (d.answer (.get d.path)).data ≠ none := by
  induction ds with
  | nil => simp [deliverAll]
  | cons d ds ih =>
    rw [List.forall_mem_cons, ← ih, deliverAll]
    by_cases ht : d.type = ZOO_CHANGED_EVENT
    · rw [ht, ← zk_watcher_changed_returns_iff c d.answer d.state d.path]
      cases zk_watcher c d.answer ZOO_CHANGED_EVENT d.state d.path with
      | ok u => simp
      | error e => simp
    · rw [zk_watcher_other c d.answer ht]
      simp [ht]

end ZookZhubei
