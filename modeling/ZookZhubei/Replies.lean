-- What a reply on the wire does to the call that waits for it: the data of a
-- `zoo_get`, and the results of the operations of a `zoo_multi`, which come one
-- after the other behind headers of their own.
import ZookZhubei.Chroot
import ZookZhubei.Jute

namespace ZookZhubei

open Codec

/-! ## The data of a `zoo_get` -/

/-- What a synchronous call finds when it wakes up: `sc->rc`, the buffer, its length and
`stat.dataLength`. -/
structure SyncData where
  rc : Int
  buffer : Str
  buff_len : Int
  dataLength : Int

/-- The `dataLength` of a `Stat`. -/
def dataLength (stat : Stat.Got) : Int := stat.2.2.2.2.2.2.2.2.1

/-- `zookeeper_process` and `process_sync_completion` for a `zoo_get`. With an error in the
header nothing more is read, and the `Stat` of the caller is not written. A field that is
missing is the error of the reader here: what the code goes on with is undefined. -/
def process_sync_data (uninit : Int) (buffer : Str) (buff_len : Int) :
    Reader Int IArchive SyncData := do
  let hdr ← ReplyHeader.deserialize 0
  let rc : Int := hdr.2.2.1
  if rc ≠ 0 then return { rc, buffer, buff_len, dataLength := uninit }
  else do
    let res ← GetDataResponse.deserialize 0
    let (buffer, buff_len) := readBuffer buffer buff_len res.1
    return { rc, buffer, buff_len, dataLength := dataLength res.2.1 }

/-- What `get_zk_data` does with it. -/
def gotten (zk_path : Str) (sc : SyncData) : Except Exn (Str × Int) :=
  if sc.rc = ZOK then do
    let zk_data ← resize sc.buffer sc.buff_len
    return (zk_data, sc.dataLength)
  else throw (getFailed zk_path sc.rc)

/-- `get_zk_data` on the bytes of a reply. -/
def get_zk_data_of_bytes (uninit : Int) (zk_path : Str) (data_size : Int) :
    Reader Int IArchive (Except Exn (Str × Int)) :=
  let data_size_ := if data_size < 1 then 1 else data_size
  match resize [] data_size_ with
  | .error e => return .error e
  | .ok zk_data => do
    let sc ← process_sync_data uninit zk_data data_size_
    return gotten zk_path sc

/-- What the server sends. -/
def Reply.bytes (xid zxid : Int) (stat : Stat.Val) (r : Reply) : Str :=
  ReplyHeader.bytes (xid, zxid, r.rc, ()) ++
    if r.rc = 0 then GetDataResponse.bytes (r.data, stat, ()) else []

/-- A reply whose values fit their types, with the length of the data in its `Stat`. -/
structure Reply.Sendable (xid zxid : Int) (stat : Stat.Val) (r : Reply) : Prop where
  xid_fits : isInt32 xid
  zxid_fits : isInt64 zxid
  rc_fits : isInt32 r.rc
  data_fits : fitsBuffer r.data
  stat_fits : Stat.Fits stat
  counted : dataLength (Stat.got stat) = (r.data.getD []).length

/-- What the call finds, by the reply. -/
def Reply.sync (uninit : Int) (buffer : Str) (buff_len : Int) (r : Reply) : SyncData :=
  if r.rc ≠ 0 then { rc := r.rc, buffer, buff_len, dataLength := uninit }
  else
    { rc := r.rc
      buffer := (readBuffer buffer buff_len r.data).1
      buff_len := (readBuffer buffer buff_len r.data).2
      dataLength := (r.data.getD []).length }

section
variable {xid zxid : Int} {stat : Stat.Val} {r : Reply}

theorem reads_sync_data (h : r.Sendable xid zxid stat) (uninit : Int) (buffer : Str) (buff_len : Int) :
    Reads IArchive.rest (process_sync_data uninit buffer buff_len) (r.bytes xid zxid stat)
      (r.sync uninit buffer buff_len) := by
  have hhdr := ReplyHeader.reads_deserialize 0 (v := (xid, zxid, r.rc, ()))
    ⟨h.xid_fits, h.zxid_fits, h.rc_fits, trivial⟩
  have hbody := GetDataResponse.reads_deserialize 0 (v := (r.data, stat, ()))
    ⟨h.data_fits, h.stat_fits, trivial⟩
  unfold process_sync_data Reply.bytes Reply.sync
  refine hhdr.bind ?_
  show Reads _ (if r.rc ≠ 0 then _ else _) _ _
  by_cases hrc : r.rc = 0
  · rw [if_neg (not_not.mpr hrc), if_pos hrc, if_neg (not_not.mpr hrc), ← h.counted]
    exact hbody.map
  · rw [if_pos hrc, if_neg hrc, if_pos hrc]
    exact Reads.pure _

/-- The buffer of a call has at least one byte. -/
theorem resize_size (data_size : Int) :
    ∃ zk_data, resize [] (if data_size < 1 then 1 else data_size) = .ok zk_data := by
  unfold resize
  rw [if_neg (by omega)]
  exact ⟨_, rfl⟩

theorem get_zk_data_eq_gotten (uninit : Int) (zk_path : Str) {data_size : Int} {zk_data : Str}
    (hbuf : resize [] (if data_size < 1 then 1 else data_size) = .ok zk_data) (r : Reply) :
    get_zk_data zk_path data_size r =
      gotten zk_path (r.sync uninit zk_data (if data_size < 1 then 1 else data_size)) := by
  unfold get_zk_data gotten Reply.sync
  simp only [hbuf]
  by_cases hrc : r.rc = 0
  · simp [hrc, ZOK]
    rfl
  · simp [hrc, ZOK]
    rfl

/-- The bytes of a reply, whatever follows them in memory, give `get_zk_data` what the reply
gives it. -/
theorem the_bytes_of_a_reply_are_the_reply (h : r.Sendable xid zxid stat) (uninit : Int)
    (zk_path : Str) (data_size : Int) {ia : IArchive} {tail : Str}
    (hrest : ia.rest = r.bytes xid zxid stat ++ tail) :
    ∃ ia', (get_zk_data_of_bytes uninit zk_path data_size).run.run ia =
        (.ok (get_zk_data zk_path data_size r), ia') ∧ ia'.rest = tail := by
  obtain ⟨zk_data, hbuf⟩ := resize_size data_size
  unfold get_zk_data_of_bytes
  rw [get_zk_data_eq_gotten uninit zk_path hbuf r]
  simp only [hbuf]
  exact (reads_sync_data h uninit zk_data _).map ia tail hrest

/-- A node with four bytes of data. -/
def fourBytes : Stat.Val :=
  ((0 : Int), (0 : Int), (0 : Int), (0 : Int), (0 : Int), (0 : Int), (0 : Int), (0 : Int), (4 : Int),
    (0 : Int), (0 : Int), ())

/-- The node of a master, in a buffer of three bytes. -/
theorem the_bytes_of_a_master_are_read :
    ∃ ia', (get_zk_data_of_bytes 0 (str "/master") 3).run.run
        (create_buffer_iarchive
          (Reply.bytes 1 7 fourBytes { rc := 0, data := some (str "zk_1") } ++ [9, 9, 9, 9])
          _ (Nat.le_refl _)) =
        (.ok (get_zk_data (str "/master") 3 { rc := 0, data := some (str "zk_1") }), ia') ∧
      ia'.rest = [9, 9, 9, 9] := by
  have hint : ∀ d : Int, 0 ≤ d → d < 8 → isInt32 d ∧ isInt64 d := by
    intro d h0 h8
    unfold isInt32 isInt64
    omega
  obtain ⟨h0, h0'⟩ := hint 0 (by decide) (by decide)
  obtain ⟨h4, -⟩ := hint 4 (by decide) (by decide)
  have hsend : Reply.Sendable 1 7 fourBytes { rc := 0, data := some (str "zk_1") } :=
    { xid_fits := (hint 1 (by decide) (by decide)).1
      zxid_fits := (hint 7 (by decide) (by decide)).2
      rc_fits := h0
      data_fits := by unfold fitsBuffer; decide
      stat_fits := ⟨h0', h0', h0', h0', h0, h0, h0, h0', h4, h0, h0', trivial⟩
      counted := rfl }
  refine the_bytes_of_a_reply_are_the_reply hsend 0 _ 3 ?_
  rw [rest_create_buffer_iarchive, List.take_length]

end

/-! ## The results of a `zoo_multi` -/

/-- The completion of one operation: of a create, of a delete or a check, of a set. -/
inductive SubType
  | string
  | void
  | stat
deriving DecidableEq, Repr

/-- `zoo_op_result_t`. The two pointers may be null. -/
structure OpResult where
  err : Int
  value : Option Str
  valuelen : Int
  stat : Option Stat.Got

/-- An entry of `clist`, with the result it writes to. -/
structure SubEntry where
  type : SubType
  result : OpResult

/-- What `memcpy` and the final null make of a buffer. -/
def copyString (buffer value : Str) (valuelen : Int) : Str :=
  let len := if (value.length : Int) + 1 > valuelen then valuelen else (value.length : Int) + 1
  if 0 < len then value.take (len - 1).toNat ++ 0 :: buffer.drop len.toNat else buffer

def op_result_string_completion (err : Int) (value : Option Str) (result : OpResult) : OpResult :=
  { result with
    err
    value := match result.value, value with
      | some buffer, some value => some (copyString buffer value result.valuelen)
      | _, _ => none }

def op_result_void_completion (err : Int) (result : OpResult) : OpResult := { result with err }

def op_result_stat_completion (err : Int) (stat : Option Stat.Got) (result : OpResult) : OpResult :=
  { result with
    err
    stat := match result.stat, stat with
      | some _, some stat => if err = 0 then some stat else none
      | _, _ => none }

/-- The completion of an operation that failed. Nothing is read for it. -/
def failed_response (rc : Int) (entry : SubEntry) : OpResult :=
  match entry.type with
  | .void => op_result_void_completion rc entry.result
  | .string => op_result_string_completion rc none entry.result
  | .stat => op_result_stat_completion rc none entry.result

/-- `deserialize_response` for an operation. `none` is the end of the process: with a
chroot, `sub_string` compares the null path of a create whose path is not read. Where a
`Stat` is not read the result is undefined, `some none`. -/
def deserialize_response (chroot : Option Str) (failed : Bool) (rc : Int) (entry : SubEntry) :
    StateM IArchive (Option (Option OpResult)) :=
  if failed then return some (some (failed_response rc entry))
  else
    match entry.type with
    | .void => return some (some (op_result_void_completion rc entry.result))
    | .string => do
      match ← (CreateResponse.deserialize 0).run with
      | .ok res =>
        return some (some
          (op_result_string_completion rc (some (sub_string chroot res.1)) entry.result))
      | .error _ =>
        match chroot with
        | none => return some (some (op_result_string_completion rc none entry.result))
        | some _ => return none
    | .stat => do
      match ← (SetDataResponse.deserialize 0).run with
      | .ok res => return some (some (op_result_stat_completion rc (some res.1) entry.result))
      | .error _ => return some none

/-- `cleanup_failed_multi`, which has no archive to read from. -/
def cleanup_failed_multi (rc : Int) (clist : List SubEntry) : List (Option OpResult) :=
  clist.map fun entry => some (failed_response rc entry)

structure MHeader where
  type : Int
  done : Int
  err : Int
deriving DecidableEq, Repr

/-- `deserialize_MultiHeader`. A field that is not read stays as it was. -/
def deserialize_MultiHeader (mhdr : MHeader) : StateM IArchive MHeader := do
  match ← ia_deserialize_int.run with
  | .error _ => return mhdr
  | .ok type =>
    match ← ia_deserialize_bool.run with
    | .error _ => return { mhdr with type }
    | .ok done =>
      match ← ia_deserialize_int.run with
      | .error _ => return { mhdr with type, done }
      | .ok err => return { type, done, err }

/-- The error of an operation. What `er` holds before it is read is `uninit`. -/
def deserialize_ErrorResponse (uninit : Int) : StateM IArchive Int := do
  match ← ia_deserialize_int.run with
  | .error _ => return uninit
  | .ok err => return err

/-- Which error the whole call gets. -/
def multiError (rc err : Int) : Int :=
  if rc = 0 ∧ err ≠ 0 ∧ err ≠ ZRUNTIMEINCONSISTENCY then err else rc

/-- The first part of a turn of the loop of `deserialize_multi`: the error of the
operation and its result. -/
def sub_result (uninit : Int) (chroot : Option Str) (entry : SubEntry) (mhdr : MHeader) :
    StateM IArchive (Option (Int × Option OpResult)) := do
  let err ← if mhdr.type = -1 then deserialize_ErrorResponse uninit else pure mhdr.err
  let response ← deserialize_response chroot (mhdr.type == -1) err entry
  return response.map fun result => (err, result)

/-- A turn: the result of the entry, and the header and the error for the next turn. -/
def multi_turn (uninit : Int) (chroot : Option Str) (entry : SubEntry) (mhdr : MHeader) (rc : Int) :
    StateM IArchive (Option (Option OpResult × MHeader × Int)) := do
  match ← sub_result uninit chroot entry mhdr with
  | none => return none
  | some (err, result) =>
    let next ← deserialize_MultiHeader { mhdr with err }
    return some (result, next, if mhdr.type = -1 then multiError rc err else rc)

/-- The loop: the error of the call and the results handed out. With no entry left
`assert(entry)` fails, and the process ends there too. -/
def multi_loop (uninit : Int) (chroot : Option Str) :
    List SubEntry → MHeader → Int → StateM IArchive (Option (Int × List (Option OpResult)))
  | [], mhdr, rc => return if mhdr.done ≠ 0 then some (rc, []) else none
  | entry :: clist, mhdr, rc =>
    if mhdr.done ≠ 0 then return some (rc, [])
    else do
      match ← multi_turn uninit chroot entry mhdr rc with
      | none => return none
      | some (result, mhdr, rc) =>
        let others ← multi_loop uninit chroot clist mhdr rc
        return others.map fun (rc, results) => (rc, result :: results)

def deserialize_multi (uninit : Int) (chroot : Option Str) (clist : List SubEntry) :
    StateM IArchive (Option (Int × List (Option OpResult))) := do
  let mhdr ← deserialize_MultiHeader { type := 0, done := 0, err := 0 }
  multi_loop uninit chroot clist mhdr 0

/-- The completion of a call with the error `err` in the header of its reply.
`process_sync_completion` does not look at the error, `deserialize_response` does. -/
def multi_completion (uninit : Int) (chroot : Option Str) (synchronous : Bool) (err : Int)
    (clist : List SubEntry) : StateM IArchive (Option (Int × List (Option OpResult))) :=
  if synchronous then deserialize_multi uninit chroot clist
  else if err ≠ 0 then return some (err, cleanup_failed_multi err clist)
  else deserialize_multi uninit chroot clist

/-! ## What a server answers -/

/-- The answer to one operation. The header of a failed one has the type -1. -/
inductive Answer
  | failed (mark err : Int)
  | created (type err : Int) (path : Str)
  | done (type err : Int)
  | set (type err : Int) (stat : Stat.Val)

def Answer.header : Answer → MHeader
  | .failed mark _ => { type := -1, done := 0, err := mark }
  | .created type err _ => { type, done := 0, err }
  | .done type err => { type, done := 0, err }
  | .set type err _ => { type, done := 0, err }

def Answer.body : Answer → Str
  | .failed _ err => ErrorResponse.bytes (err, ())
  | .created _ _ path => CreateResponse.bytes (path, ())
  | .done _ _ => []
  | .set _ _ stat => SetDataResponse.bytes (stat, ())

def MHeader.bytes (h : MHeader) : Str := MultiHeader.bytes (h.type, h.done, h.err, ())

/-- The header behind the last answer. -/
def lastHeader : MHeader := { type := -1, done := 1, err := -1 }

/-- A `MultiResponse`. -/
def multiBytes (answers : List Answer) : Str :=
  answers.flatMap (fun a => a.header.bytes ++ a.body) ++ lastHeader.bytes

/-- An answer that fits the operation, with values that fit their types. -/
def Answer.Fits : Answer → SubEntry → Prop
  | .failed mark err, _ => isInt32 mark ∧ isInt32 err
  | .created type err path, e =>
    e.type = .string ∧ type ≠ -1 ∧ isInt32 type ∧ isInt32 err ∧ fitsString path
  | .done type err, e => e.type = .void ∧ type ≠ -1 ∧ isInt32 type ∧ isInt32 err
  | .set type err stat, e => e.type = .stat ∧ type ≠ -1 ∧ isInt32 type ∧ isInt32 err ∧ Stat.Fits stat

/-- The result of an operation by its answer. -/
def Answer.result (chroot : Option Str) (e : SubEntry) : Answer → OpResult
  | .failed _ err => failed_response err e
  | .created _ err path => op_result_string_completion err (some (sub_string chroot path)) e.result
  | .done _ err => op_result_void_completion err e.result
  | .set _ err stat => op_result_stat_completion err (some (Stat.got stat)) e.result

/-- The error of a failed operation. -/
def Answer.error : Answer → Int
  | .failed _ err => err
  | _ => 0

/-- The error of a call: the first one that is not a consequence of another. -/
def firstError (answers : List Answer) : Int :=
  (((answers.map Answer.error).find? fun err => err ≠ 0 ∧ err ≠ ZRUNTIMEINCONSISTENCY).getD 0)

/-! ## Each operation gets its result -/

theorem yields_MultiHeader (mhdr : MHeader) {h : MHeader} (ht : isInt32 h.type) (hd : isFlag h.done)
    (he : isInt32 h.err) : Yields IArchive.rest (deserialize_MultiHeader mhdr) h.bytes h := by
  unfold deserialize_MultiHeader
  refine (reads_int ht).yields.bind ?_
  refine (reads_bool hd).yields.bind ?_
  exact (reads_int he).yields.bind (Yields.pure h)

theorem yields_ErrorResponse (uninit : Int) {err : Int} (h : isInt32 err) :
    Yields IArchive.rest (deserialize_ErrorResponse uninit) (ErrorResponse.bytes (err, ())) err := by
  unfold deserialize_ErrorResponse
  exact (reads_int h).yields.bind (Yields.pure err)

theorem isInt32_header {a : Answer} {e : SubEntry} (h : a.Fits e) :
    isInt32 a.header.type ∧ isFlag a.header.done ∧ isInt32 a.header.err := by
  have h1 : isInt32 (-1) := ⟨by decide, by decide⟩
  cases a with
  | failed mark err => exact ⟨h1, .inl rfl, h.1⟩
  | created type err path => exact ⟨h.2.2.1, .inl rfl, h.2.2.2.1⟩
  | done type err => exact ⟨h.2.2.1, .inl rfl, h.2.2.2⟩
  | set type err stat => exact ⟨h.2.2.1, .inl rfl, h.2.2.2.1⟩

/-- The error that the completion of an operation is called with. -/
def Answer.err : Answer → Int
  | .failed _ err => err
  | a => a.header.err

theorem yields_sub_result (uninit : Int) (chroot : Option Str) {a : Answer} {e : SubEntry}
    (h : a.Fits e) :
    Yields IArchive.rest (sub_result uninit chroot e a.header) a.body
      (some (a.err, some (a.result chroot e))) := by
  unfold sub_result
  cases a with
  | failed mark err =>
    exact (yields_ErrorResponse uninit h.2).last rfl
  | created type err path =>
    obtain ⟨ht, hne, -, -, hpath⟩ := h
    have hread := CreateResponse.reads_deserialize 0 (v := (path, ())) ⟨hpath, trivial⟩
    simp only [Answer.header, hne, if_false, pure_bind, deserialize_response, ht, beq_iff_eq]
    refine Yields.last (a := some (some _)) ?_ rfl
    exact hread.yields.last rfl
  | done type err =>
    obtain ⟨ht, hne, -, -⟩ := h
    simp only [Answer.header, hne, if_false, pure_bind, deserialize_response, ht, beq_iff_eq]
    exact Yields.pure _
  | set type err stat =>
    obtain ⟨ht, hne, -, -, hstat⟩ := h
    have hread := SetDataResponse.reads_deserialize 0 (v := (stat, ())) ⟨hstat, trivial⟩
    simp only [Answer.header, hne, if_false, pure_bind, deserialize_response, ht, beq_iff_eq]
    refine Yields.last (a := some (some _)) ?_ rfl
    exact hread.yields.last rfl

theorem yields_turn (uninit : Int) (chroot : Option Str) {a : Answer} {e : SubEntry} (h : a.Fits e)
    {next : MHeader} (hn : ∀ mhdr, Yields IArchive.rest (deserialize_MultiHeader mhdr) next.bytes next)
    (rc : Int) :
    Yields IArchive.rest (multi_turn uninit chroot e a.header rc) (a.body ++ next.bytes)
      (some (some (a.result chroot e), next, multiError rc a.error)) := by
  unfold multi_turn
  refine (yields_sub_result uninit chroot h).bind ((hn _).last ?_)
  have hkeep : multiError rc 0 = rc := by simp [multiError]
  cases a with
  | failed mark err => rfl
  | created type err path =>
    simp only [Answer.header, h.2.1, if_false, Answer.error, hkeep]
  | done type err =>
    simp only [Answer.header, h.2.1, if_false, Answer.error, hkeep]
  | set type err stat =>
    simp only [Answer.header, h.2.1, if_false, Answer.error, hkeep]

/-- The header in front of the answers that are left. -/
def nextHeader : List Answer → MHeader
  | [] => lastHeader
  | a :: _ => a.header

/-- What stands behind that header. -/
def behindHeader : List Answer → Str
  | [] => []
  | a :: answers => a.body ++ (nextHeader answers).bytes ++ behindHeader answers

theorem multiBytes_eq (answers : List Answer) :
    multiBytes answers = (nextHeader answers).bytes ++ behindHeader answers := by
  induction answers with
  | nil =>
    unfold multiBytes behindHeader nextHeader
    simp
  | cons a answers ih =>
    have hcons : multiBytes (a :: answers) = a.header.bytes ++ (a.body ++ multiBytes answers) := by
      simp [multiBytes]
    rw [hcons, ih]
    simp [nextHeader, behindHeader]

theorem yields_nextHeader {answers : List Answer} {clist : List SubEntry}
    (h : List.Forall₂ Answer.Fits answers clist) (mhdr : MHeader) :
    Yields IArchive.rest (deserialize_MultiHeader mhdr) (nextHeader answers).bytes
      (nextHeader answers) := by
  cases h with
  | nil => exact yields_MultiHeader mhdr ⟨by decide, by decide⟩ (.inr rfl) ⟨by decide, by decide⟩
  | cons ha _ =>
    obtain ⟨h1, h2, h3⟩ := isInt32_header ha
    exact yields_MultiHeader mhdr h1 h2 h3

/-- The loop hands out the answers one by one, and keeps the first error. -/
theorem yields_loop (uninit : Int) (chroot : Option Str) {answers : List Answer}
    {clist : List SubEntry} (h : List.Forall₂ Answer.Fits answers clist) (rc : Int) :
    Yields IArchive.rest (multi_loop uninit chroot clist (nextHeader answers) rc) (behindHeader answers)
      (some ((answers.map Answer.error).foldl multiError rc,
        List.zipWith (fun a e => some (a.result chroot e)) answers clist)) := by
  induction h generalizing rc with
  | nil => exact Yields.pure _
  | @cons a e answers clist ha hs ih =>
    have hdone : ¬ (nextHeader (a :: answers)).done ≠ 0 := by
      cases a <;> simp [nextHeader, Answer.header]
    unfold multi_loop
    rw [if_neg hdone]
    refine (yields_turn uninit chroot ha (yields_nextHeader hs) rc).bind ?_
    exact (ih (multiError rc a.error)).last rfl

theorem foldl_multiError (errs : List Int) (rc : Int) :
    errs.foldl multiError rc = if rc = 0 then
      (errs.find? fun err => decide (err ≠ 0 ∧ err ≠ ZRUNTIMEINCONSISTENCY)).getD 0 else rc := by
  induction errs generalizing rc with
  | nil =>
    by_cases h : rc = 0 <;> simp [h]
  | cons err errs ih =>
    rw [List.foldl_cons, ih]
    by_cases h : rc = 0
    · by_cases he : err ≠ 0 ∧ err ≠ ZRUNTIMEINCONSISTENCY
      · simp [multiError, h, he]
      · simp [multiError, h, he]
    · simp [multiError, h]

/-- However many operations there are, and whatever follows in memory, each one gets the
answer of its place, and the call gets the first error that is not a consequence of another. -/
theorem a_multi_gives_each_operation_its_result (uninit : Int) (chroot : Option Str)
    {answers : List Answer} {clist : List SubEntry} (h : List.Forall₂ Answer.Fits answers clist)
    {ia : IArchive} {tail : Str} (hrest : ia.rest = multiBytes answers ++ tail) :
    ∃ ia', (deserialize_multi uninit chroot clist).run ia =
        (some (firstError answers, List.zipWith (fun a e => some (a.result chroot e)) answers clist), ia') ∧
      ia'.rest = tail := by
  have hloop := yields_loop uninit chroot h 0
  rw [foldl_multiError, if_pos rfl] at hloop
  rw [multiBytes_eq] at hrest
  exact (yields_nextHeader h _).bind hloop ia tail hrest

/-- A create, a set and a delete that fails the other two. -/
def threeOperations : List SubEntry :=
  [{ type := .string, result := { err := 0, value := some [0, 0], valuelen := 2, stat := none } },
   { type := .stat, result := { err := 0, value := none, valuelen := 0, stat := none } },
   { type := .void, result := { err := 0, value := none, valuelen := 0, stat := none } }]

def threeAnswers : List Answer :=
  [.failed 0 0, .failed ZBADVERSION ZBADVERSION, .failed ZRUNTIMEINCONSISTENCY ZRUNTIMEINCONSISTENCY]

/-- The call gets the error of the operation that failed. -/
theorem a_multi_of_three_gives_its_error :
    ∃ results ia', (deserialize_multi 0 none threeOperations).run
        (create_buffer_iarchive (multiBytes threeAnswers ++ [1, 2, 3, 4]) _ (Nat.le_refl _)) =
          (some (ZBADVERSION, results), ia') ∧
      results.map (Option.map OpResult.err) =
        [some 0, some ZBADVERSION, some ZRUNTIMEINCONSISTENCY] ∧ ia'.rest = [1, 2, 3, 4] := by
  have hfit : ∀ d, d = 0 ∨ d = ZBADVERSION ∨ d = ZRUNTIMEINCONSISTENCY → isInt32 d := by
    rintro d (rfl | rfl | rfl) <;> exact ⟨by decide, by decide⟩
  have h : List.Forall₂ Answer.Fits threeAnswers threeOperations :=
    .cons ⟨hfit _ (.inl rfl), hfit _ (.inl rfl)⟩
      (.cons ⟨hfit _ (.inr (.inl rfl)), hfit _ (.inr (.inl rfl))⟩
        (.cons ⟨hfit _ (.inr (.inr rfl)), hfit _ (.inr (.inr rfl))⟩ .nil))
  have hrest : (create_buffer_iarchive (multiBytes threeAnswers ++ [1, 2, 3, 4]) _
      (Nat.le_refl _)).rest = multiBytes threeAnswers ++ [1, 2, 3, 4] := by
    rw [rest_create_buffer_iarchive, List.take_length]
  obtain ⟨ia', hrun, htail⟩ := a_multi_gives_each_operation_its_result 0 none h hrest
  exact ⟨_, ia', hrun, rfl, htail⟩

/-! ## A reply without a body -/

/-- Nothing is read where there is not even an `int`. -/
theorem int_of_short {ia : IArchive} (h : ia.rest.length < 4) :
    ia_deserialize_int.run.run ia = (.error (-E2BIG), ia) := by
  unfold ia_deserialize_int
  rw [run_bind, ia_take_short h]

theorem header_of_short {ia : IArchive} (h : ia.rest.length < 4) (mhdr : MHeader) :
    (deserialize_MultiHeader mhdr).run ia = (mhdr, ia) := by
  unfold deserialize_MultiHeader
  exact run_then (int_of_short h)

theorem create_of_short {ia : IArchive} (h : ia.rest.length < 4) :
    (CreateResponse.deserialize 0).run.run ia = (.error (-E2BIG), ia) :=
  run_adapt_error _ (run_bind_error _ (run_adapt_error _ (run_adapt_error _
    (run_bind_error _ (int_of_short h)))))

theorem stat_of_short {ia : IArchive} (h : ia.rest.length < 4) :
    (SetDataResponse.deserialize 0).run.run ia = (.error (-E2BIG), ia) :=
  run_adapt_error _ (run_bind_error _ (run_adapt_error _ (run_bind_error _
    (run_adapt_error _ (run_adapt_error _ (run_bind_error _ (ia_take_short (by omega))))))))

theorem response_of_short {ia : IArchive} (h : ia.rest.length < 4) (chroot : Option Str)
    (failed : Bool) (rc : Int) (e : SubEntry) :
    ∃ response, (deserialize_response chroot failed rc e).run ia = (response, ia) := by
  unfold deserialize_response
  cases failed with
  | true => exact ⟨_, rfl⟩
  | false =>
    cases e.type with
    | void => exact ⟨_, rfl⟩
    | string =>
      cases chroot with
      | none => exact ⟨_, run_then (create_of_short h)⟩
      | some c => exact ⟨_, run_then (create_of_short h)⟩
    | stat => exact ⟨_, run_then (stat_of_short h)⟩

theorem sub_of_short {ia : IArchive} (h : ia.rest.length < 4) (uninit : Int) (chroot : Option Str)
    (e : SubEntry) (mhdr : MHeader) :
    ∃ r, (sub_result uninit chroot e mhdr).run ia = (r, ia) := by
  have herr : (deserialize_ErrorResponse uninit).run ia = (uninit, ia) := by
    unfold deserialize_ErrorResponse
    exact run_then (int_of_short h)
  unfold sub_result
  split
  · obtain ⟨response, hres⟩ := response_of_short h chroot (mhdr.type == -1) uninit e
    exact ⟨_, (run_then herr).trans (run_then hres)⟩
  · obtain ⟨response, hres⟩ := response_of_short h chroot (mhdr.type == -1) mhdr.err e
    rw [pure_bind]
    exact ⟨_, run_then hres⟩

/-- A turn of the loop ends the process, or leaves `done` as it is. -/
theorem turn_of_short {ia : IArchive} (h : ia.rest.length < 4) (uninit : Int) (chroot : Option Str)
    (e : SubEntry) (mhdr : MHeader) (rc : Int) :
    (multi_turn uninit chroot e mhdr rc).run ia = (none, ia) ∨
      ∃ result err rc', (multi_turn uninit chroot e mhdr rc).run ia =
        (some (result, { mhdr with err }, rc'), ia) := by
  obtain ⟨r, hsub⟩ := sub_of_short h uninit chroot e mhdr
  unfold multi_turn
  cases r with
  | none => exact .inl (run_then hsub)
  | some r =>
    obtain ⟨err, result⟩ := r
    exact .inr ⟨result, err, if mhdr.type = -1 then multiError rc err else rc,
      (run_then hsub).trans (run_then (header_of_short h _))⟩

/-- The loop takes one entry after the other and comes to the assertion, if it does not end
before. -/
theorem loop_of_short {ia : IArchive} (h : ia.rest.length < 4) (uninit : Int) (chroot : Option Str)
    (clist : List SubEntry) {mhdr : MHeader} (hd : mhdr.done = 0) (rc : Int) :
    (multi_loop uninit chroot clist mhdr rc).run ia = (none, ia) := by
  induction clist generalizing mhdr rc with
  | nil =>
    unfold multi_loop
    rw [if_neg (not_not.mpr hd)]
    rfl
  | cons e clist ih =>
    unfold multi_loop
    rw [if_neg (not_not.mpr hd)]
    rcases turn_of_short h uninit chroot e mhdr rc with hturn | ⟨result, err, rc', hturn⟩
    · exact run_then hturn
    · have hnext := @ih { mhdr with err } hd rc'
      exact (run_then hturn).trans (run_then hnext)

/-- With nothing but an `int` left, the `int` is read and then nothing is left. -/
theorem int_of_four {ia : IArchive} (h : ia.rest.length = 4) :
    ∃ v ia', ia_deserialize_int.run.run ia = (.ok v, ia') ∧ ia'.rest.length = 0 := by
  obtain ⟨ia', htake, hrest⟩ := ia_take_ok (n := 4) h.ge
  refine ⟨toInt (ofBe (ia.rest.take 4)), ia', ?_, by rw [hrest, List.length_drop]; omega⟩
  unfold ia_deserialize_int
  rw [run_bind, htake]
  rfl

/-- The type of the first header may still be read, out of the 4 bytes that the archive
claims too many. -/
theorem first_header_of_short {ia : IArchive} (h : ia.rest.length ≤ 4) :
    ∃ mhdr ia', (deserialize_MultiHeader { type := 0, done := 0, err := 0 }).run ia = (mhdr, ia') ∧
      mhdr.done = 0 ∧ ia'.rest.length < 4 := by
  by_cases h4 : ia.rest.length < 4
  · exact ⟨_, ia, header_of_short h4 _, rfl, h4⟩
  · have hfour : ia.rest.length = 4 := by omega
    obtain ⟨v, ia', hint, hnil⟩ := int_of_four hfour
    have hbool : ia_deserialize_bool.run.run ia' = (.error (-E2BIG), ia') := by
      unfold ia_deserialize_bool
      exact run_bind_error _ (ia_take_short (by omega))
    refine ⟨{ type := v, done := 0, err := 0 }, ia', ?_, rfl, by omega⟩
    unfold deserialize_MultiHeader
    exact (run_then hint).trans (run_then hbool)

/-- A reply with an error in its header and no body. An asynchronous call ends with that
error, and so does each operation; a synchronous call ends the process. -/
theorem a_failed_multi_ends_a_synchronous_call (uninit : Int) (chroot : Option Str)
    (clist : List SubEntry) {err : Int} (herr : err ≠ 0) {ia : IArchive} (h : ia.rest.length ≤ 4) :
    ((multi_completion uninit chroot true err clist).run ia).1 = none ∧
      ((multi_completion uninit chroot false err clist).run ia).1 =
        some (err, clist.map fun e => some ((Answer.failed err err).result none e)) := by
  unfold multi_completion
  refine ⟨?_, ?_⟩
  · obtain ⟨mhdr, ia', hfirst, hd, hshort⟩ := first_header_of_short h
    unfold deserialize_multi
    rw [if_pos rfl, run_then hfirst, loop_of_short hshort uninit chroot clist hd]
  · rw [if_neg (by decide), if_pos herr]
    rfl

/-- The session was moved to another server while a multi of three was on its way. -/
theorem a_moved_multi_ends_a_synchronous_call :
    ((multi_completion 0 none true ZSESSIONMOVED threeOperations).run
        (create_buffer_iarchive [9, 9, 9, 9] 4 (Nat.le_refl _))).1 = none ∧
      ((multi_completion 0 none false ZSESSIONMOVED threeOperations).run
        (create_buffer_iarchive [9, 9, 9, 9] 4 (Nat.le_refl _))).1 =
        some (ZSESSIONMOVED,
          threeOperations.map fun e => some ((Answer.failed ZSESSIONMOVED ZSESSIONMOVED).result none e)) :=
  a_failed_multi_ends_a_synchronous_call 0 none threeOperations (by decide)
    (by rw [rest_create_buffer_iarchive]; decide)

end ZookZhubei
