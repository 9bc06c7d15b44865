-- The class `zookbag`: each of its functions, as a function of what the
-- client library answers. See `zookbag.cpp` and `zookbag.h`.
import Mathlib.Algebra.Order.Ring.Int
import ZookZhubei.Client

namespace ZookZhubei

/-! ## What a call gives back -/

/-- A node of the server: its data, `ephemeralOwner` and `czxid`. A persistent
node has no owner, as the id 0 of the source. -/
structure Znode where
  data : Str
  owner : Option Session
  czxid : Nat
deriving DecidableEq, Repr

/-- What a synchronous call returns. `data` is the payload of `zoo_get`, and
`none` is the null payload, of length -1. `seen` is the node that the server
found at the path of the request. The program never reads it. -/
structure Reply where
  rc : Int
  data : Option Str := none
  seen : Option Znode := none
deriving DecidableEq, Repr

/-- A call that ends in the client, with no word from the server. -/
def Reply.err (rc : Int) : Reply := { rc }

@[simp] theorem Reply.err_rc (rc : Int) : (Reply.err rc).rc = rc := rfl

/-- `CException`. Each `THROW_EXCEPTION` of the class has its own line. -/
structure CException where
  errmsg : Str
  errcode : Int
  line : Nat
deriving DecidableEq, Repr

/-- What the functions throw: a `CException`, the `throw 1` of `create_node`,
or the `std::length_error` of `std::string::resize`. -/
inductive Exn
  | cexception (e : CException)
  | int (i : Int)
  | length_error
deriving DecidableEq, Repr

/-! ## The tests on a result code -/

def node_exists_exception (errcode : Int) : Bool := errcode == ZNODEEXISTS
def invalid_handle_exception (errcode : Int) : Bool := errcode == ZINVALIDSTATE
def session_expried_exception (errcode : Int) : Bool := errcode == ZSESSIONEXPIRED

/-! ## Reading a node -/

/-- `std::string::resize` with an `int`. A negative length wraps to a
`size_t` past `max_size`. -/
def resize (s : Str) (n : Int) : Except Exn Str :=
  if n < 0 then .error .length_error
  else .ok (s.take n.toNat ++ List.replicate (n.toNat - s.length) 0)

def payloadLen : Option Str → Int
  | none => -1
  | some d => d.length

/-- `process_sync_completion` for `COMPLETION_DATA`: the buffer and its length
after the call. -/
def readBuffer (buffer : Str) (buff_len : Int) (data : Option Str) : Str × Int :=
  let len := if payloadLen data ≤ buff_len then payloadLen data else buff_len
  if len = -1 then (buffer, len)
  else ((data.getD []).take len.toNat ++ buffer.drop len.toNat, len)

def getFailed (zk_path : Str) (errcode : Int) : Exn :=
  .cexception
    { errmsg := str "get path://" ++ zk_path ++ str " data failed: " ++ zerror errcode,
      errcode, line := 140 }

/-- `get_zk_data`: the data and the full length of the payload. -/
def get_zk_data (zk_path : Str) (data_size : Int) (r : Reply) : Except Exn (Str × Int) := do
  let data_size_ := if data_size < 1 then 1 else data_size
  let zk_data ← resize [] data_size_
  if r.rc = ZOK then
    let (buffer, datalen) := readBuffer zk_data data_size_ r.data
    let zk_data ← resize buffer datalen
    return (zk_data, ((r.data.getD []).length : Int))
  else throw (getFailed zk_path r.rc)

/-- The buffer after a read, cut to its length, is the start of the payload. -/
theorem readBuffer_some (buffer d : Str) (n : Nat) (hb : buffer.length = n) (hn : 0 < n) :
    resize (readBuffer buffer n (some d)).1 (readBuffer buffer n (some d)).2 =
      .ok (d.take n) := by
  unfold readBuffer payloadLen resize
  by_cases h : d.length ≤ n
  · have hle : (d.length : Int) ≤ n := by omega
    have h1 : ¬ (d.length : Int) = -1 := by omega
    have h2 : ¬ (d.length : Int) < 0 := by omega
    simp [hle, h1, h2, List.take_of_length_le h]
  · have hle : ¬ (d.length : Int) ≤ n := by omega
    have h1 : ¬ (n : Int) = -1 := by omega
    have h2 : ¬ (n : Int) < 0 := by omega
    have h3 : min n d.length = n := by omega
    simp [hle, h1, h2, h3, hb]

theorem resize_nil (n : Nat) : resize [] n = .ok (List.replicate n 0) := by
  have h : ¬ (n : Int) < 0 := by omega
  simp [resize, h]

section
variable (zk_path : Str) (n : Nat) (hn : 0 < n) (r : Reply)
include hn

theorem get_zk_data_some (d : Str) (hr : r.rc = ZOK) (hd : r.data = some d) :
    get_zk_data zk_path n r = .ok (d.take n, (d.length : Int)) := by
  have h1 : ¬ (n : Int) < 1 := by omega
  have h2 := readBuffer_some (List.replicate n 0) d n (by simp) hn
  simp only [get_zk_data, h1, if_false, resize_nil, hr, hd, if_true, bind, Except.bind, h2]
  rfl

theorem get_zk_data_null (hr : r.rc = ZOK) (hd : r.data = none) :
    get_zk_data zk_path n r = .error .length_error := by
  have h1 : ¬ (n : Int) < 1 := by omega
  have h2 : (-1 : Int) ≤ n := by omega
  simp only [get_zk_data, h1, if_false, resize_nil, hr, hd, if_true, readBuffer, payloadLen, h2,
    bind, Except.bind]
  rfl

theorem get_zk_data_error (hr : r.rc ≠ ZOK) :
    get_zk_data zk_path n r = .error (getFailed zk_path r.rc) := by
  have h1 : ¬ (n : Int) < 1 := by omega
  simp only [get_zk_data, h1, if_false, resize_nil, hr, bind, Except.bind]
  rfl

end

theorem get_zk_data_clamp (zk_path : Str) (data_size : Int) (r : Reply) :
    get_zk_data zk_path data_size r = get_zk_data zk_path ((max data_size 1).toNat : Int) r := by
  have h1 : ¬ ((max data_size 1).toNat : Int) < 1 := by omega
  have h2 : (if data_size < 1 then 1 else data_size) = ((max data_size 1).toNat : Int) := by
    split <;> omega
  simp only [get_zk_data, h1, if_false, h2]

/-- What `get_zk_data` gives for every size and every answer. -/
theorem get_zk_data_eq (zk_path : Str) (data_size : Int) (r : Reply) :
    get_zk_data zk_path data_size r =
      if r.rc = ZOK then
        match r.data with
        | some d => .ok (d.take (max data_size 1).toNat, (d.length : Int))
        | none => .error .length_error
      else .error (getFailed zk_path r.rc) := by
  have hn : 0 < (max data_size 1).toNat := by omega
  rw [get_zk_data_clamp]
  split
  · rename_i hr
    cases hd : r.data with
    | some d => exact get_zk_data_some zk_path _ hn r d hr hd
    | none => exact get_zk_data_null zk_path _ hn r hr hd
  · rename_i hr
    exact get_zk_data_error zk_path _ hn r hr

theorem get_zk_data_512 (zk_path : Str) (r : Reply) :
    get_zk_data zk_path 512 r =
      if r.rc = ZOK then
        match r.data with
        | some d => .ok (d.take 512, (d.length : Int))
        | none => .error .length_error
      else .error (getFailed zk_path r.rc) :=
  get_zk_data_eq zk_path 512 r

/-- The literal that `run` compares the data of the master node with. -/
def zk_1 : Str := str "zk_1"

/-- A cut at 512 bytes neither makes nor hides `zk_1`. -/
theorem take_512_eq_zk_1 (d : Str) : d.take 512 = zk_1 ↔ d = zk_1 := by
  have hl : zk_1.length = 4 := by decide
  constructor
  · intro h
    have hlen := congrArg List.length h
    simp only [List.length_take, hl] at hlen
    rwa [List.take_of_length_le (by omega)] at h
  · rintro rfl
    exact List.take_of_length_le (by omega)

/-! ## The other calls -/

/-- `race_master`: whether the race was won, `zk_errcode` and `zk_errmsg`. -/
def race_master (errcode_ : Int) : Bool × Int × Str :=
  if errcode_ = ZOK then (true, errcode_, str "SUCCESS") else (false, errcode_, zerror errcode_)

/-- `is_zhu_exist`: every answer other than `ZNONODE` is a primary. -/
def is_zhu_exist (errcode : Int) : Bool := !(errcode == ZNONODE)

def zhuPath : Str := str "/nodes/test"

/-- The path that `create_node` sends. -/
def nodePath (zk_parent_path zk_node_name : Str) : Str :=
  zk_parent_path ++ str "/" ++ zk_node_name

def create_node (errcode : Int) : Except Exn Unit :=
  if errcode ≠ ZOK then .error (.int 1) else .ok ()

def deleteFailed (zk_path : Str) (errcode : Int) : Exn :=
  .cexception
    { errmsg := str "delete path://" ++ zk_path ++ str " failed: " ++ zerror errcode,
      errcode, line := 406 }

def delete_node (zk_path : Str) (errcode : Int) : Except Exn Unit :=
  if errcode ≠ ZOK then .error (deleteFailed zk_path errcode) else .ok ()

/-- The exception of `recreate_session` for a null handle. `text` is
`strerror(errno)`. -/
def reconnectFailed (zk_nodes : Str) (errno : Int) (text : Str) : Exn :=
  .cexception
    { errmsg := str "reconnect nodes://" ++ zk_nodes ++ str " failed: " ++ text,
      errcode := errno, line := 226 }

/-! ## The local test of the session -/

def is_connected (s : ZooState) : Bool := s == .connected

def toInt (x : Int) : Int := x.bmod (2 ^ 32)

theorem toInt_eq_self {x : Int} (h0 : -2 ^ 31 ≤ x) (h1 : x < 2 ^ 31) : toInt x = x :=
  Int.bmod_eq_of_le_mul_two (by omega) (by omega)

/-- `is_session_expired`. The clocks count seconds and the timeout counts
milliseconds; the division of C drops the rest. -/
def is_session_expired (state : ZooState) (start_connect_time current_time : Int)
    (session_timeout_milliseconds : Int) : Bool :=
  if state = .expired then true
  else if start_connect_time > 0 then
    if current_time > start_connect_time then
      decide (toInt (current_time - start_connect_time) >
        session_timeout_milliseconds.tdiv 1000 - 1)
    else false
  else false

@[simp] theorem is_session_expired_expired (start now timeout : Int) :
    is_session_expired .expired start now timeout = true := rfl

end ZookZhubei
