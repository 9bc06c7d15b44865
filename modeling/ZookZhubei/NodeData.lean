-- Data that goes to a node and comes back: `set_zk_data`, the two overloads of
-- `get_zk_data`, and `store_data`, which copies a node to a file. See
-- `zookbag.cpp`, `zookbag.h` and `syscall_exception.h`.
import ZookZhubei.Watcher

namespace ZookZhubei

/-! ## A read with a size -/

/-- What a read of at most `data_size` bytes should give: the start of the
payload and its full length. A null payload is empty. -/
def boundedRead (data_size : Int) (payload : Option Str) : Str × Int :=
  let d := payload.getD []
  (d.take (min (max data_size 1) d.length).toNat, (d.length : Int))

theorem boundedRead_some (data_size : Int) (d : Str) :
    boundedRead data_size (some d) = (d.take (max data_size 1).toNat, (d.length : Int)) := by
  have h : (min (max data_size 1) d.length).toNat = min (max data_size 1).toNat d.length := by
    omega
  simp only [boundedRead, Option.getD_some, h, Prod.mk.injEq, and_true]
  exact List.take_eq_take_min.symm

/-- For every size and every payload that the server answers with: the read is
the bounded one exactly when the payload is not null. -/
theorem get_zk_data_is_bounded_iff (zk_path : Str) (data_size : Int) (r : Reply)
    (hr : r.rc = ZOK) :
    get_zk_data zk_path data_size r = .ok (boundedRead data_size r.data) ↔ r.data ≠ none := by
  rw [get_zk_data_eq, if_pos hr]
  cases hd : r.data with
  | none => simp
  | some d => simp [boundedRead_some]

/-- A size below 1, and a payload that is longer than the size. -/
theorem get_zk_data_is_bounded_of_zk_2 :
    get_zk_data (str "/master") (-7) { rc := ZOK, data := some (str "zk_2") } =
        .ok (str "z", 4) ∧
      get_zk_data (str "/master") 3 { rc := ZOK, data := some (str "zk_2") } =
        .ok (str "zk_", 4) :=
  ⟨(get_zk_data_is_bounded_iff (str "/master") (-7) { rc := ZOK, data := some (str "zk_2") }
      rfl).mpr (by simp),
    (get_zk_data_is_bounded_iff (str "/master") 3 { rc := ZOK, data := some (str "zk_2") }
      rfl).mpr (by simp)⟩

theorem a_null_payload_throws :
    get_zk_data (str "/master") 512 { rc := ZOK, data := none } = .error .length_error ∧
      boundedRead 512 none = ([], 0) := by
  constructor <;> decide

/-! ## Writing a node and reading it back -/

/-- A node of the server, as `zoo_set` sees it. -/
structure DataNode where
  data : Option Str
  version : Int
deriving DecidableEq, Repr

abbrev Store := Str → Option DataNode

def Store.setData (s : Store) (path data : Str) (version : Int) : Int × Store :=
  match s path with
  | none => (ZNONODE, s)
  | some n =>
    if version ≠ -1 ∧ version ≠ n.version then (ZBADVERSION, s)
    else (ZOK, Function.update s path (some { data := some data, version := n.version + 1 }))

def Store.getData (s : Store) (path : Str) : Reply :=
  match s path with
  | none => .err ZNONODE
  | some n => { rc := ZOK, data := n.data }

/-- Another client makes, writes or deletes a node. -/
structure Write where
  path : Str
  node : Option DataNode
deriving DecidableEq, Repr

def Write.apply (s : Store) (w : Write) : Store := Function.update s w.path w.node

def setFailed (zk_path : Str) (errcode : Int) : Exn :=
  .cexception
    { errmsg := str "set path://" ++ zk_path ++ str " data failed: " ++ zerror errcode,
      errcode, line := 162 }

/-- `set_zk_data`. The size goes through an `int`. The request is the same with
and without a `Stat`. -/
def set_zk_data (s : Store) (zk_path zk_data : Str) (version : Int) : Except Exn Unit × Store :=
  let buflen := toInt zk_data.length
  let (errcode, s) := s.setData zk_path (zk_data.take buflen.toNat) version
  if errcode ≠ ZOK then (.error (setFailed zk_path errcode), s) else (.ok (), s)

/-- `SIZE_MAX` of the two platforms that the project is built for. -/
def SIZE_MAX (x64 : Bool) : Int := if x64 then 2 ^ 64 - 1 else 2 ^ 32 - 1

/-- The default of the parameter `data_size`, which is an `int`. -/
def defaultSize (x64 : Bool) : Int := toInt (SIZE_MAX x64)

/-- The overload of `get_zk_data` that returns the data. -/
def get_zk_data_string (zk_path : Str) (data_size : Int) (r : Reply) : Except Exn Str :=
  match get_zk_data zk_path data_size r with
  | .ok (zk_data, _) => .ok zk_data
  | .error e => .error e

theorem defaultSize_eq (x64 : Bool) : defaultSize x64 = -1 := by
  cases x64 <;> decide

theorem toInt_toNat_length {p : Str} (hp : p.length < 2 ^ 31) :
    (toInt p.length).toNat = p.length := by
  rw [toInt_eq_self (by omega) (by omega), Int.toNat_natCast]

theorem set_zk_data_ok {s s' : Store} {path p : Str} {version : Int} (hp : p.length < 2 ^ 31)
    (h : set_zk_data s path p version = (.ok (), s')) :
    ∃ v, s' path = some { data := some p, version := v } := by
  simp only [set_zk_data, toInt_toNat_length hp, List.take_length] at h
  unfold Store.setData at h
  split at h
  · cases h
  · split at h
    · cases h
    · cases h
      exact ⟨_, Function.update_self ..⟩

theorem foldl_apply_of_ne {path : Str} {ws : List Write} :
    ∀ {s : Store}, (∀ w ∈ ws, w.path ≠ path) → ws.foldl Write.apply s path = s path := by
  induction ws with
  | nil => exact fun _ => rfl
  | cons w ws ih =>
    intro s hw
    rw [List.foldl_cons, ih fun v hv => hw v (List.mem_cons_of_mem w hv)]
    exact Function.update_of_ne (Ne.symm (hw w List.mem_cons_self)) ..

/-- Both overloads, with their default arguments, give `p` back. -/
def GivesBack (x64 : Bool) (path p : Str) (r : Reply) : Prop :=
  get_zk_data path (defaultSize x64) r = .ok (p, (p.length : Int)) ∧
    get_zk_data_string path (defaultSize x64) r = .ok p

/-- For every node, and every sequence of writes to other nodes in between: what
`set_zk_data` wrote comes back exactly when it is one byte or none. -/
theorem set_then_get_iff (x64 : Bool) {s s' : Store} {path p : Str} {ws : List Write}
    (hp : p.length < 2 ^ 31) (hset : set_zk_data s path p (-1) = (.ok (), s'))
    (hw : ∀ w ∈ ws, w.path ≠ path) :
    GivesBack x64 path p (Store.getData (ws.foldl Write.apply s') path) ↔ p.length ≤ 1 := by
  obtain ⟨v, hv⟩ := set_zk_data_ok hp hset
  have hreply : Store.getData (ws.foldl Write.apply s') path = { rc := ZOK, data := some p } := by
    simp only [Store.getData, foldl_apply_of_ne hw, hv]
  have hread : get_zk_data path (defaultSize x64) { rc := ZOK, data := some p } =
      .ok (p.take 1, (p.length : Int)) := by
    rw [get_zk_data_eq, defaultSize_eq]
    rfl
  simp only [GivesBack, get_zk_data_string, hreply, hread, Except.ok.injEq, Prod.mk.injEq, and_true,
    and_self]
  constructor
  · intro h
    have hlen := congrArg List.length h
    rw [List.length_take] at hlen
    omega
  · exact List.take_of_length_le

def oneNode : Store := fun path =>
  if path = str "/nodes" then some { data := some [], version := 0 } else none

theorem set_then_get_of_a_zero_byte : ∃ s',
    set_zk_data oneNode (str "/nodes") [0] (-1) = (.ok (), s') ∧
      GivesBack true (str "/nodes") [0]
        (Store.getData ([⟨str "/master", none⟩].foldl Write.apply s') (str "/nodes")) := by
  have h : set_zk_data oneNode (str "/nodes") [0] (-1) =
      (.ok (), (set_zk_data oneNode (str "/nodes") [0] (-1)).2) := rfl
  exact ⟨_, h, (set_then_get_iff true (by decide) h (by decide)).mpr (by decide)⟩

theorem the_default_read_cuts : ∃ s',
    set_zk_data oneNode (str "/nodes") (str "ab") (-1) = (.ok (), s') ∧
      get_zk_data (str "/nodes") (defaultSize true) (Store.getData s' (str "/nodes")) =
        .ok (str "a", 2) ∧
      ¬ GivesBack true (str "/nodes") (str "ab") (Store.getData s' (str "/nodes")) := by
  have h : set_zk_data oneNode (str "/nodes") (str "ab") (-1) =
      (.ok (), (set_zk_data oneNode (str "/nodes") (str "ab") (-1)).2) := rfl
  obtain ⟨v, hv⟩ := set_zk_data_ok (by decide) h
  have hreply : Store.getData (set_zk_data oneNode (str "/nodes") (str "ab") (-1)).2
      (str "/nodes") = { rc := ZOK, data := some (str "ab") } := by
    simp only [Store.getData, hv]
  have hread : get_zk_data (str "/nodes") (defaultSize true) { rc := ZOK, data := some (str "ab") } =
      .ok (str "a", 2) := by decide
  refine ⟨_, h, hreply ▸ hread, ?_⟩
  rintro ⟨hback, _⟩
  rw [hreply, hread] at hback
  exact absurd hback (by decide)

/-! ## Copying a node to a file -/

/-- The payloads that the node holds around a call of `store_data`: `held` when
it begins, then what other clients write up to the first read, between the two
reads, and from then until the call returns. -/
structure History where
  held : Str
  before : List Str
  between : List Str
  after : List Str
deriving DecidableEq, Repr

namespace History

def first (h : History) : Str := h.before.getLastD h.held

def second (h : History) : Str := h.between.getLastD h.first

/-- Every payload that the node holds at some moment of the call. -/
def payloads (h : History) : List Str := h.held :: (h.before ++ (h.between ++ h.after))

end History

/-- What the file system does: whether `open` succeeds, and how many bytes
`write` stores at most. `none` is a `write` that returns -1. -/
structure Files where
  opens : Bool
  writes : Option Nat
deriving DecidableEq, Repr

/-- How `store_data` ends. `noReturn` is the end of the function without a
`return`: its value is undefined. -/
inductive Stored
  | threw (e : Exn)
  | returned (n : Nat) (file : Str)
  | noReturn
deriving DecidableEq, Repr

def readAll (zk_path : Str) (r1 r2 : Reply) : Except Exn Str :=
  match get_zk_data zk_path SIZE_8K r1 with
  | .error e => .error e
  | .ok (zk_data, n) =>
    if n > SIZE_8K then get_zk_data_string zk_path n r2 else .ok zk_data

/-- `store_data`. `THROW_SYSCALL_EXCEPTION` makes an exception and does not
throw it, so a failure of `open` or `write` runs off the end, and after a
failure of `close` the call returns as if there were none. -/
def store_data (zk_path : Str) (r1 r2 : Reply) (sys : Files) : Stored :=
  match readAll zk_path r1 r2 with
  | .error e => .threw e
  | .ok zk_data =>
    if !sys.opens then .noReturn
    else
      match sys.writes.map fun k => min k zk_data.length with
      | none => .noReturn
      | some n =>
        if n ≠ zk_data.length then .noReturn else .returned n (zk_data.take n)

section
variable (zk_path : Str) (h : History) (rc1 rc2 : Int) (sys : Files)

/-- A call of `store_data` while the node goes through `h`. The codes are those
of the two reads. -/
def storing : Stored :=
  store_data zk_path { rc := rc1, data := some h.first } { rc := rc2, data := some h.second } sys

/-- A call that does not throw has stored a payload of the node, and returns its
length. -/
def Snapshot (h : History) : Stored → Prop
  | .threw _ => True
  | .returned n file => file ∈ h.payloads ∧ n = file.length
  | .noReturn => False

/-- The data that a call stores when its reads succeed. -/
def History.read (h : History) : Str :=
  if 512 < h.first.length then h.second.take h.first.length else h.first

def ReadsOk : Prop := rc1 = ZOK ∧ (512 < h.first.length → rc2 = ZOK)

theorem mem_payloads_first : h.first ∈ h.payloads := by
  unfold History.first History.payloads
  rw [← List.cons_append]
  refine List.mem_append_left _ ?_
  rw [List.getLastD_eq_getLast?]
  cases hb : h.before.getLast? with
  | none => simp
  | some d => exact List.mem_cons_of_mem _ (List.mem_of_getLast? hb)

theorem mem_payloads_second : h.second ∈ h.payloads := by
  unfold History.second
  rw [List.getLastD_eq_getLast?]
  cases hb : h.between.getLast? with
  | none => exact mem_payloads_first h
  | some d =>
    have hd := List.mem_of_getLast? hb
    simp [History.payloads, hd]

theorem readAll_ok (hr : ReadsOk h rc1 rc2) :
    readAll zk_path { rc := rc1, data := some h.first } { rc := rc2, data := some h.second } =
      .ok h.read := by
  obtain ⟨rfl, h2⟩ := hr
  have hfirst := get_zk_data_512 zk_path { rc := ZOK, data := some h.first }
  simp only [if_true] at hfirst
  unfold readAll History.read
  rw [show SIZE_8K = 512 from rfl, hfirst]
  by_cases hlong : 512 < h.first.length
  · have hlong' : (h.first.length : Int) > 512 := by omega
    have hmax : (max (h.first.length : Int) 1).toNat = h.first.length := by omega
    simp only [hlong', hlong, if_true, get_zk_data_string, get_zk_data_eq, h2 hlong, hmax]
  · have hlong' : ¬ (h.first.length : Int) > 512 := by omega
    simp only [hlong', hlong, if_false, Except.ok.injEq]
    exact List.take_of_length_le (by omega)

theorem readAll_fails (hr : ¬ ReadsOk h rc1 rc2) : ∃ e,
    readAll zk_path { rc := rc1, data := some h.first } { rc := rc2, data := some h.second } =
      .error e := by
  have hfirst := get_zk_data_512 zk_path { rc := rc1, data := some h.first }
  unfold readAll
  rw [show SIZE_8K = 512 from rfl, hfirst]
  by_cases h1 : rc1 = ZOK
  · have h2 : 512 < h.first.length ∧ rc2 ≠ ZOK := by
      simpa [ReadsOk, h1] using hr
    have hlong' : (h.first.length : Int) > 512 := by omega
    simp only [h1, if_true, hlong', get_zk_data_string, get_zk_data_eq, h2.2, if_false]
    exact ⟨_, rfl⟩
  · simp only [h1, if_false]
    exact ⟨_, rfl⟩

def Complete (h : History) (sys : Files) : Prop :=
  sys.opens = true ∧ ∃ k, sys.writes = some k ∧ h.read.length ≤ k

/-- The node did not grow between the two reads, or what the second one is cut
to is a payload as well. -/
def NotTorn (h : History) : Prop :=
  512 < h.first.length → h.second.length ≤ h.first.length ∨
    h.second.take h.first.length ∈ h.payloads

theorem read_mem_payloads_iff : h.read ∈ h.payloads ↔ NotTorn h := by
  unfold History.read NotTorn
  by_cases hlong : 512 < h.first.length
  · simp only [hlong, if_true, forall_const]
    constructor
    · exact Or.inr
    · rintro (hle | hmem)
      · rw [List.take_of_length_le hle]
        exact mem_payloads_second h
      · exact hmem
  · simp [hlong, mem_payloads_first h]

/-- With the data in hand, the call returns when the file takes all of it, and
runs off its end otherwise. -/
theorem storing_ok (hr : ReadsOk h rc1 rc2) :
    (Complete h sys → storing zk_path h rc1 rc2 sys = .returned h.read.length h.read) ∧
      (¬ Complete h sys → storing zk_path h rc1 rc2 sys = .noReturn) := by
  unfold storing store_data Complete
  rw [readAll_ok zk_path h rc1 rc2 hr]
  simp only
  cases sys.opens with
  | false => simp
  | true =>
    cases sys.writes with
    | none => simp
    | some k =>
      simp only [Bool.not_true, Bool.false_eq_true, if_false, Option.map_some, true_and,
        Option.some.injEq, exists_eq_left']
      constructor
      · intro hk
        rw [Nat.min_eq_right hk, List.take_length]
        simp
      · intro hk
        have hne : min k h.read.length ≠ h.read.length := by omega
        simp [hne]

/-- For every history of the node around the call, every outcome of its reads
and of the file: a call that comes back has stored a payload that the node held
meanwhile, exactly when a read threw, or the file took all the data and the
data was not torn. -/
theorem store_data_is_a_snapshot_iff :
    Snapshot h (storing zk_path h rc1 rc2 sys) ↔
      (ReadsOk h rc1 rc2 → Complete h sys ∧ NotTorn h) := by
  by_cases hr : ReadsOk h rc1 rc2
  · obtain ⟨h1, h2⟩ := storing_ok zk_path h rc1 rc2 sys hr
    by_cases hc : Complete h sys
    · simp only [h1 hc, Snapshot, hr, hc, and_true, true_and, forall_const]
      exact read_mem_payloads_iff h
    · simp [h2 hc, Snapshot, hr, hc]
  · obtain ⟨e, he⟩ := readAll_fails zk_path h rc1 rc2 hr
    simp [storing, store_data, he, Snapshot, hr]

end

def grows : History :=
  { held := List.replicate 600 1, before := [], between := [List.replicate 700 2], after := [] }

/-- The file gets 600 bytes of the second payload. The same call with a file
that cannot be opened neither throws nor returns a value. -/
theorem store_data_is_torn :
    storing (str "/master") grows ZOK ZOK { opens := true, writes := some 4096 } =
      .returned 600 (List.replicate 600 2) ∧
    ¬ Snapshot grows (storing (str "/master") grows ZOK ZOK
      { opens := true, writes := some 4096 }) ∧
    storing (str "/master") grows ZOK ZOK { opens := false, writes := some 4096 } = .noReturn := by
  have hok : ReadsOk grows ZOK ZOK := ⟨rfl, fun _ => rfl⟩
  have hread : grows.read = List.replicate 600 2 := by
    simp [-List.reduceReplicate, History.read, grows, History.first, History.second]
  have hstored : storing (str "/master") grows ZOK ZOK { opens := true, writes := some 4096 } =
      .returned 600 (List.replicate 600 2) := by
    have h := (storing_ok (str "/master") grows ZOK ZOK { opens := true, writes := some 4096 } hok).1
      ⟨rfl, 4096, rfl, by simp [-List.reduceReplicate, hread]⟩
    rwa [hread, List.length_replicate] at h
  refine ⟨hstored, ?_, ?_⟩
  · rw [hstored]
    rintro ⟨hmem, _⟩
    simp [-List.reduceReplicate, History.payloads, grows, List.replicate_inj] at hmem
  · exact (storing_ok (str "/master") grows ZOK ZOK _ hok).2 fun hc => by simp [Complete] at hc

end ZookZhubei
