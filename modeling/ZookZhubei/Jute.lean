-- The generated records of `zookeeper.jute.c`. Each `serialize_*` and
-- `deserialize_*` calls the functions of an archive, one for each field and in
-- the same order on both sides, so a record is given by its list of fields.
import ZookZhubei.Recordio

namespace ZookZhubei

open Codec

/-! ## Fields -/

/-- What a generated function is made of. `start_record` and `end_record` do
nothing, so a record is its first field and then the others. -/
inductive Jute
  | int | long | bool | buffer | string
  | done
  | field (first others : Jute)
  | vector (element : Jute)
deriving DecidableEq, Repr

/-- A record in C, with the tags of its fields. The archives ignore the tags. -/
def record : List (String × Jute) → Jute
  | [] => .done
  | f :: fs => .field f.2 (record fs)

/-- What a program writes. A buffer may be null, and a string is not. -/
def Jute.Val : Jute → Type
  | .int => Int
  | .long => Int
  | .bool => Int
  | .buffer => Option Str
  | .string => Str
  | .done => Unit
  | .field a b => a.Val × b.Val
  | .vector a => List a.Val

mutual

/-- What a program reads. -/
def Jute.Got : Jute → Type
  | .int => Int
  | .long => Int
  | .bool => Int
  | .buffer => Option Str
  | .string => Str
  | .done => Unit
  | .field a b => a.Got × b.Got
  | .vector a => List (Elem a.Got a.Part)

/-- What a reader that fails has stored: the fields in front of the one that it failed at,
and of a buffer the length. -/
def Jute.Part : Jute → Type
  | .int => Unit
  | .long => Unit
  | .bool => Unit
  | .buffer => Option Int
  | .string => Unit
  | .done => Unit
  | .field a b => a.Part ⊕ a.Got × b.Part
  | .vector _ => Unit

end

/-- A value with nothing missing. -/
def Jute.got : (t : Jute) → t.Val → t.Got
  | .int, v => v
  | .long, v => v
  | .bool, v => v
  | .buffer, v => v
  | .string, v => v
  | .done, v => v
  | .field a b, v => (a.got v.1, b.got v.2)
  | .vector a, v => v.map fun x => .whole (a.got x)

/-- The generated writer. -/
def Jute.serialize : (t : Jute) → t.Val → Appender OArchive Unit
  | .int, v => oa_serialize_int v
  | .long, v => oa_serialize_long v
  | .bool, v => oa_serialize_bool v
  | .buffer, v => oa_serialize_buffer v
  | .string, v => oa_serialize_string (some v)
  | .done, _ => pure ()
  | .field a b, v => do
    a.serialize v.1
    b.serialize v.2
  | .vector a, v => serialize_vector a.serialize v

/-- The generated reader, with what it has stored when it fails. `uninit` is what a
`count` holds before it is read. -/
def Jute.store (uninit : Int) : (t : Jute) → Reader (Int × t.Part) IArchive t.Got
  | .int => ExceptT.adapt (·, ()) ia_deserialize_int
  | .long => ExceptT.adapt (·, ()) ia_deserialize_long
  | .bool => ExceptT.adapt (·, ()) ia_deserialize_bool
  | .buffer => ia_deserialize_buffer
  | .string => ExceptT.adapt (·, ()) ia_deserialize_string
  | .done => pure ()
  | .field a b => do
    let x ← ExceptT.adapt (fun e => (e.1, .inl e.2)) (a.store uninit)
    let y ← ExceptT.adapt (fun e => (e.1, .inr (x, e.2))) (b.store uninit)
    return (x, y)
  | .vector a => deserialize_vector uninit (a.store uninit)

/-- The same for a caller that looks at the code only. -/
def Jute.deserialize (uninit : Int) (t : Jute) : Reader Int IArchive t.Got :=
  ExceptT.adapt Prod.fst (t.store uninit)

/-! ## The records of the protocol -/

def String_vector : Jute := .vector .string
def Id : Jute := record [("scheme", .string), ("id", .string)]
def jACL : Jute := record [("perms", .int), ("id", Id)]
def ACL_vector : Jute := .vector jACL

def Stat : Jute := record
  [("czxid", .long), ("mzxid", .long), ("ctime", .long), ("mtime", .long), ("version", .int),
   ("cversion", .int), ("aversion", .int), ("ephemeralOwner", .long), ("dataLength", .int),
   ("numChildren", .int), ("pzxid", .long)]

def ConnectRequest : Jute := record
  [("protocolVersion", .int), ("lastZxidSeen", .long), ("timeOut", .int), ("sessionId", .long),
   ("passwd", .buffer)]

def ConnectResponse : Jute := record
  [("protocolVersion", .int), ("timeOut", .int), ("sessionId", .long), ("passwd", .buffer)]

def SetWatches : Jute := record
  [("relativeZxid", .long), ("dataWatches", String_vector), ("existWatches", String_vector),
   ("childWatches", String_vector)]

def RequestHeader : Jute := record [("xid", .int), ("type", .int)]
def MultiHeader : Jute := record [("type", .int), ("done", .bool), ("err", .int)]
def AuthPacket : Jute := record [("type", .int), ("scheme", .string), ("auth", .buffer)]
def ReplyHeader : Jute := record [("xid", .int), ("zxid", .long), ("err", .int)]
def GetDataRequest : Jute := record [("path", .string), ("watch", .bool)]
def SetDataResponse : Jute := record [("stat", Stat)]

def ErrorResponse : Jute := record [("err", .int)]
def CreateResponse : Jute := record [("path", .string)]
def GetDataResponse : Jute := record [("data", .buffer), ("stat", Stat)]

/-! ## The bytes of a record -/

/-- What a writer appends. -/
def Jute.bytes : (t : Jute) → t.Val → Str
  | .int, v => beInt v
  | .long, v => beLong v
  | .bool, v => boolBytes v
  | .buffer, v => bufferBytes v
  | .string, v => stringBytes v
  | .done, _ => []
  | .field a b, v => a.bytes v.1 ++ b.bytes v.2
  | .vector a, v => vectorBytes a.bytes v

/-- The values that C holds in the types of the fields. -/
def Jute.Fits : (t : Jute) → t.Val → Prop
  | .int, v => isInt32 v
  | .long, v => isInt64 v
  | .bool, v => isFlag v
  | .buffer, v => fitsBuffer v
  | .string, v => fitsString v
  | .done, _ => True
  | .field a b, v => a.Fits v.1 ∧ b.Fits v.2
  | .vector a, v => List.length v < 2 ^ 31 ∧ List.Forall a.Fits v

/-- A record with no vector in it. -/
def Jute.plain : Jute → Bool
  | .field a b => a.plain && b.plain
  | .vector _ => false
  | _ => true

/-- What is stored of a value when only the first `n` of its bytes are there. -/
def Jute.part : (t : Jute) → t.Val → Nat → t.Part
  | .int, _, _ => ()
  | .long, _, _ => ()
  | .bool, _, _ => ()
  | .buffer, v, n => bufferPart v n
  | .string, _, _ => ()
  | .done, _, _ => ()
  | .field a b, v, n =>
    if n < (a.bytes v.1).length then .inl (a.part v.1 n)
    else .inr (a.got v.1, b.part v.2 (n - (a.bytes v.1).length))
  | .vector _, _, _ => ()

theorem Jute.writes_serialize (t : Jute) (v : t.Val) :
    WritesBytes (t.serialize v) (t.bytes v) := by
  induction t with
  | int => exact writes_int v
  | long => exact writes_long v
  | bool => exact writes_bool v
  | buffer => exact writes_buffer v
  | string => exact writes_string v
  | done => exact Writes.nil
  | field a b iha ihb => exact (iha v.1).bind (ihb v.2)
  | vector a ih => exact writes_vector v fun x _ => ih x

theorem Jute.reads_store (uninit : Int) (t : Jute) {v : t.Val} (h : t.Fits v) :
    Reads IArchive.rest (t.store uninit) (t.bytes v) (t.got v) := by
  induction t with
  | int => exact (reads_int h).adapt _
  | long => exact (reads_long h).adapt _
  | bool => exact (reads_bool h).adapt _
  | buffer => exact reads_buffer h
  | string => exact (reads_string h).adapt _
  | done => exact Reads.pure ()
  | field a b iha ihb => exact ((iha h.1).adapt _).bind ((ihb h.2).adapt _).map
  | vector a ih => exact reads_vector uninit h.1 fun x hx => ih (List.forall_iff_forall_mem.mp h.2 x hx)

theorem Jute.reads_deserialize (uninit : Int) (t : Jute) {v : t.Val} (h : t.Fits v) :
    Reads IArchive.rest (t.deserialize uninit) (t.bytes v) (t.got v) :=
  (t.reads_store uninit h).adapt _

theorem Jute.needs_store (uninit : Int) (t : Jute) (hp : t.plain = true) {v : t.Val}
    (h : t.Fits v) :
    Needs IArchive.rest (t.store uninit) (t.bytes v) fun n e => e.2 = t.part v n := by
  induction t with
  | int => exact (needs_int v).adapt fun _ _ _ => rfl
  | long => exact (needs_long v).adapt fun _ _ _ => rfl
  | bool => exact (needs_bool v).adapt fun _ _ _ => rfl
  | buffer => exact needs_buffer h
  | string => exact (needs_string h).adapt fun _ _ _ => rfl
  | done => exact Needs.nil _
  | field a b iha ihb =>
    simp only [Jute.plain, Bool.and_eq_true] at hp
    have ha := (iha hp.1 h.1).adapt (f := fun e => (e.1, (.inl e.2 : (Jute.field a b).Part)))
      (R := fun n e => e.2 = .inl (a.part v.1 n)) fun n e he => by rw [he]
    have hb := (ihb hp.2 h.2).adapt
      (f := fun e => (e.1, (.inr (a.got v.1, e.2) : (Jute.field a b).Part)))
      (R := fun n e => e.2 = .inr (a.got v.1, b.part v.2 n)) fun n e he => by rw [he]
    have hab : Needs IArchive.rest ((Jute.field a b).store uninit) (a.bytes v.1 ++ b.bytes v.2) _ :=
      ha.bind ((a.reads_store uninit h.1).adapt _) hb.map
    refine hab.mono fun n e _ he => ?_
    split at he
    case isTrue hlt => exact he.trans (if_pos hlt).symm
    case isFalse hge => exact he.trans (if_neg hge).symm
  | vector a ih => cases hp

theorem Jute.confined_store (uninit : Int) (t : Jute) :
    Confined IArchive.rest (t.store uninit) := by
  induction t with
  | int => exact confined_int.adapt _
  | long => exact confined_long.adapt _
  | bool => exact confined_bool.adapt _
  | buffer => exact confined_buffer
  | string => exact confined_string.adapt _
  | done => exact Confined.pure ()
  | field a b iha ihb =>
    exact (iha.adapt _).bind fun _ => (ihb.adapt _).bind fun _ => Confined.pure _
  | vector a ih => exact confined_vector uninit ih

theorem Jute.small_serialize (t : Jute) (v : t.Val) : Keeps OArchive.Small (t.serialize v) := by
  induction t with
  | int => exact small_put _
  | long => exact small_put _
  | bool => exact small_put _
  | buffer => exact small_buffer v
  | string => exact (small_put _).bind (small_put _)
  | done => exact Keeps.nil
  | field a b iha ihb => exact (iha v.1).bind (ihb v.2)
  | vector a ih => exact small_vector v fun x _ => ih x

/-! ## From one archive to the other -/

/-- A record in an archive of its own. -/
def Jute.written (t : Jute) (v : t.Val) : Option OArchive :=
  ((t.serialize v).run create_buffer_oarchive).map Prod.snd

section
variable {t : Jute} {v : t.Val} {oa : OArchive}

theorem Jute.run_of_written (h : t.written v = some oa) :
    (t.serialize v).run create_buffer_oarchive = some ((), oa) := by
  obtain ⟨⟨⟨⟩, oa'⟩, hrun, rfl⟩ := Option.map_eq_some_iff.mp h
  exact hrun

theorem Jute.buffer_written (h : t.written v = some oa) : oa.buffer = t.bytes v :=
  (t.writes_serialize v).appends _ _ (Jute.run_of_written h)

theorem Jute.off_written (h : t.written v = some oa) : oa.off = (t.bytes v).length := by
  unfold OArchive.off
  rw [Jute.buffer_written h]

theorem Jute.written_returns (h : (t.bytes v).length ≤ 2 ^ 29) : ∃ oa, t.written v = some oa := by
  obtain ⟨oa, hrun⟩ := (t.writes_serialize v).returns create_buffer_oarchive
    (by simpa [create_buffer_oarchive] using h)
  exact ⟨oa, by rw [Jute.written, hrun]; rfl⟩

end

/-- The reader takes a whole archive. -/
theorem Jute.reads_written (uninit : Int) (t : Jute) {v : t.Val} {oa : OArchive} (hv : t.Fits v)
    (hw : t.written v = some oa) :
    ∃ ia, (t.deserialize uninit).run.run
        (create_buffer_iarchive oa.buffer oa.buffer.length (Nat.le_refl _)) =
      (.ok (t.got v), ia) ∧ ia.rest = [] := by
  refine t.reads_deserialize uninit hv _ [] ?_
  rw [rest_create_buffer_iarchive, List.take_length, Jute.buffer_written hw, List.append_nil]

/-- However many fields make the archive grow, it stays within four times of the record.
The writer comes back from every record of 2^29 bytes and less. -/
theorem an_archive_stays_small (t : Jute) (v : t.Val) :
    (∀ oa, t.written v = some oa → oa.len ≤ max 128 (4 * oa.off)) ∧
      ((t.bytes v).length ≤ 2 ^ 29 → ∃ oa, t.written v = some oa) := by
  refine ⟨fun oa h => ?_, Jute.written_returns⟩
  have hsmall : create_buffer_oarchive.Small := by
    unfold OArchive.Small
    exact Nat.le_max_left _ _
  exact t.small_serialize v _ _ hsmall (Jute.run_of_written h)

/-- The request for the data of `/z`, without a watch. -/
def getZ : GetDataRequest.Val := (([47, 122] : Str), (0 : Int), ())

theorem fits_getZ : GetDataRequest.Fits getZ := by
  have hpath : fitsString [47, 122] := ⟨by simp, by decide⟩
  have hwatch : isFlag 0 := .inl rfl
  exact ⟨hpath, hwatch, trivial⟩

/-- Whatever the bytes are, no reader sees what stands in memory behind the claimed length. -/
theorem no_reader_looks_behind_the_length (uninit : Int) (t : Jute) (mem behind behind' : Str) :
    ((t.deserialize uninit).run.run
        (create_buffer_iarchive (mem ++ behind) mem.length (by simp))).1 =
      ((t.deserialize uninit).run.run
        (create_buffer_iarchive (mem ++ behind') mem.length (by simp))).1 := by
  refine ((t.confined_store uninit).adapt Prod.fst _ _ ?_).1
  rw [rest_create_buffer_iarchive, rest_create_buffer_iarchive, List.take_left, List.take_left]

/-- An archive that claims less than the record holds a part of it. -/
theorem rest_of_short {t : Jute} {v : t.Val} {oa : OArchive} (hw : t.written v = some oa)
    (behind : Str) {len : Nat} (hlen : len < oa.off) (hmem : len ≤ (oa.buffer ++ behind).length) :
    (create_buffer_iarchive _ len hmem).rest = (t.bytes v).take len := by
  rw [rest_create_buffer_iarchive, List.take_append_of_le_length (Nat.le_of_lt hlen),
    Jute.buffer_written hw]

/-- A record without a vector is refused when the claimed length ends inside it, even
where the rest of it follows in memory. -/
theorem a_truncated_record_is_refused (uninit : Int) {t : Jute} (hp : t.plain = true) {v : t.Val}
    (hv : t.Fits v) {oa : OArchive} (hw : t.written v = some oa) (behind : Str) {len : Nat}
    (hlen : len < oa.off) (hmem : len ≤ (oa.buffer ++ behind).length) :
    ∃ e ia, (t.deserialize uninit).run.run (create_buffer_iarchive _ len hmem) =
      (.error e, ia) := by
  have hrest := rest_of_short hw behind hlen hmem
  rw [Jute.off_written hw] at hlen
  have hneeds := (t.needs_store uninit hp hv).adapt (f := Prod.fst) (R := fun _ _ => True)
    fun _ _ _ => trivial
  obtain ⟨e, ia, he, -⟩ := hneeds (create_buffer_iarchive _ len hmem)
    (hrest ▸ List.take_prefix _ _) (hrest ▸ take_ne_self hlen)
  exact ⟨e, ia, he⟩

theorem getZ_without_its_flag_is_refused : ∃ oa, GetDataRequest.written getZ = some oa ∧
    ∃ hmem : 6 ≤ (oa.buffer ++ []).length, ∃ e ia,
      (GetDataRequest.deserialize 0).run.run (create_buffer_iarchive (oa.buffer ++ []) 6 hmem) =
        (.error e, ia) := by
  obtain ⟨oa, hw⟩ := Jute.written_returns (t := GetDataRequest) (v := getZ) (by decide)
  have hoff : oa.off = 7 := (Jute.off_written hw).trans (by decide)
  have hmem : 6 ≤ (oa.buffer ++ []).length := by
    rw [List.append_nil, show oa.buffer.length = 7 from hoff]
    decide
  exact ⟨oa, hw, hmem,
    a_truncated_record_is_refused 0 (by decide) fits_getZ hw [] (by omega) hmem⟩

/-- All rights for everyone. -/
def worldAnyone : jACL.Val :=
  ((31 : Int), (([119, 111, 114, 108, 100] : Str), ([97, 110, 121, 111, 110, 101] : Str), ()), ())

theorem fits_worldAnyone : jACL.Fits worldAnyone := by
  have h1 : fitsString [119, 111, 114, 108, 100] := ⟨by simp, by decide⟩
  have h2 : fitsString [97, 110, 121, 111, 110, 101] := ⟨by simp, by decide⟩
  have h3 : isInt32 31 := by constructor <;> decide
  exact ⟨h3, ⟨h1, h2, trivial⟩, trivial⟩

end ZookZhubei
