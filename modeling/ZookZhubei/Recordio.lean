-- The archives of `recordio.c`: a growing buffer that the records are written
-- to, and a cursor over a buffer of a claimed length that they are read from.
-- No allocation fails here. A writer that comes to an `int32_t` that overflows
-- does not come back.
import Mathlib.Data.List.TakeWhile
import ZookZhubei.Codec
import ZookZhubei.Zookbag

namespace ZookZhubei

open Codec

def E2BIG : Int := 7
def ENOMEM : Int := 12
def EINVAL : Int := 22

/-- A C string ends at its first null byte. -/
def cstr (s : Str) : Str := s.takeWhile (· ≠ 0)

/-! ## `oarchive` -/

/-- The largest `int32_t`. -/
def INT32_MAX : Nat := 2147483647

/-- The loop of `resize_buffer` on the `int32_t` of a `len`. The doubling after 2^30
overflows, and from there (0 on a host that wraps) the loop has no end. -/
def resize_buffer (len newlen : Nat) : Option Nat :=
  if len < newlen then
    if 0 < len ∧ len * 2 ≤ INT32_MAX then resize_buffer (len * 2) newlen else none
  else some len
termination_by newlen - len
decreasing_by omega

/-- It stops at the first doubling that is large enough. -/
theorem resize_buffer_some {len newlen l : Nat} (h : resize_buffer len newlen = some l)
    (hlen : len ≤ INT32_MAX) (hlt : len < newlen) : newlen ≤ l ∧ l < 2 * newlen ∧ l ≤ INT32_MAX := by
  fun_induction resize_buffer len newlen with
  | case1 len hc hd ih =>
    by_cases hn : len * 2 < newlen
    · exact ih h hd.2 hn
    · rw [resize_buffer, if_neg hn] at h
      cases h
      omega
  | case2 => cases h
  | case3 => contradiction

/-- It ends for every length that a doubling can reach. -/
theorem resize_buffer_returns {len newlen : Nat} (h : 0 < len) (hn : 2 * newlen ≤ INT32_MAX) :
    ∃ l, resize_buffer len newlen = some l := by
  fun_induction resize_buffer len newlen with
  | case1 len hc hd ih => exact ih (by omega)
  | case2 len hc hd => omega
  | case3 len hc => exact ⟨len, rfl⟩

/-- `struct buff_struct` behind an `oarchive`. `buffer` is what is written, so
its length is `off`, and `len` is what is allocated. -/
structure OArchive where
  buffer : Str
  len : Nat
  len_pos : 0 < len
  len_le_max : len ≤ INT32_MAX
  off_le_len : buffer.length ≤ len

/-- `get_buffer_len`. -/
def OArchive.off (oa : OArchive) : Nat := oa.buffer.length

def create_buffer_oarchive : OArchive :=
  { buffer := [], len := 128, len_pos := by omega, len_le_max := by decide, off_le_len := by simp }

/-- The length after the check that each writer makes before its `memcpy`. It asks
for `len + n` and not for `off + n`, and this sum is an `int` too. -/
def OArchive.room (oa : OArchive) (n : Nat) : Option Nat :=
  if oa.len - oa.off < n then
    if oa.len + n ≤ INT32_MAX then resize_buffer oa.len (oa.len + n) else none
  else some oa.len

theorem OArchive.room_some {oa : OArchive} {n l : Nat} (h : oa.room n = some l) :
    oa.off + n ≤ l ∧ 0 < l ∧ l ≤ INT32_MAX := by
  have hoff : oa.off ≤ oa.len := oa.off_le_len
  have hpos := oa.len_pos
  have hmax := oa.len_le_max
  unfold OArchive.room at h
  split at h
  · split at h
    · obtain ⟨h1, -, h2⟩ := resize_buffer_some h hmax (by omega)
      omega
    · cases h
  · cases h
    omega

/-- There is room as long as the buffer and what comes to it stay within 2^29 bytes. -/
theorem OArchive.room_returns {oa : OArchive} {n : Nat} (h : oa.off + n ≤ 2 ^ 29) :
    ∃ l, oa.room n = some l := by
  unfold OArchive.room
  split
  · have hmax : 2 * (oa.len + n) ≤ INT32_MAX := by
      unfold INT32_MAX
      omega
    rw [if_pos (by omega)]
    exact resize_buffer_returns oa.len_pos hmax
  · exact ⟨_, rfl⟩

/-- The check, the `memcpy` and the step of `off` that all the writers share. -/
def oa_put (bs : Str) : Appender OArchive Unit := fun oa =>
  match h : oa.room bs.length with
  | none => none
  | some len =>
    some ((), { buffer := oa.buffer ++ bs, len, len_pos := (oa.room_some h).2.1,
                len_le_max := (oa.room_some h).2.2,
                off_le_len := by simpa [OArchive.off] using (oa.room_some h).1 })

/-- An `int32_t` after `htonl`. -/
def beInt (d : Int) : Str := be 4 (d % 2 ^ 32).toNat

/-- An `int64_t` after `zoo_htonll`. -/
def beLong (d : Int) : Str := be 8 (d % 2 ^ 64).toNat

/-- The loop of `zoo_htonll` on the 8 bytes of a long in memory. -/
def zoo_htonll (s : Str) : Str :=
  [0, 1, 2, 3].foldl
    (fun s i => (s.set i (s.getD (8 - i - 1) 0)).set (8 - i - 1) (s.getD i 0)) s

theorem zoo_htonll_eq_reverse {s : Str} (h : s.length = 8) : zoo_htonll s = s.reverse := by
  match s, h with
  | [_, _, _, _, _, _, _, _], _ => rfl

/-- The bytes of a long in the memory of a little-endian host. -/
def hostLong (d : Int) : Str := (beLong d).reverse

theorem zoo_htonll_hostLong (d : Int) : zoo_htonll (hostLong d) = beLong d := by
  rw [zoo_htonll_eq_reverse (by simp [hostLong, beLong]), hostLong, List.reverse_reverse]

def oa_serialize_int (d : Int) : Appender OArchive Unit := oa_put (beInt d)
def oa_serialize_long (d : Int) : Appender OArchive Unit := oa_put (zoo_htonll (hostLong d))
def oa_start_vector (count : Int) : Appender OArchive Unit := oa_serialize_int count

/-- A flag is one byte. -/
def boolBytes (i : Int) : Str := [if i = 0 then 0 else 1]

def oa_serialize_bool (i : Int) : Appender OArchive Unit := oa_put (boolBytes i)

/-- A null buffer has the length -1 and no bytes. -/
def oa_serialize_buffer : Option Str → Appender OArchive Unit
  | none => oa_serialize_int (-1)
  | some b => do
    oa_serialize_int b.length
    oa_put b

def oa_serialize_string : Option Str → Appender OArchive Unit
  | none => oa_serialize_int (-1)
  | some s => do
    oa_serialize_int (cstr s).length
    oa_put (cstr s)

/-! ## `iarchive` -/

/-- `struct buff_struct` behind an `iarchive`. `buffer` is the memory from the
pointer on, which may go on behind the claimed `len`. -/
structure IArchive where
  buffer : Str
  len : Nat
  off : Nat
  off_le_len : off ≤ len
  len_le_size : len ≤ buffer.length

def create_buffer_iarchive (buffer : Str) (len : Nat) (h : len ≤ buffer.length) : IArchive :=
  { buffer, len, off := 0, off_le_len := by omega, len_le_size := h }

/-- The bytes between the cursor and the claimed end. -/
def IArchive.rest (ia : IArchive) : Str := (ia.buffer.take ia.len).drop ia.off

@[simp] theorem IArchive.length_rest (ia : IArchive) : ia.rest.length = ia.len - ia.off := by
  have h := ia.len_le_size
  simp [IArchive.rest, h]

theorem rest_create_buffer_iarchive (buffer : Str) (len : Nat) (h : len ≤ buffer.length) :
    (create_buffer_iarchive buffer len h).rest = buffer.take len := rfl

/-- The check, the `memcpy` and the step of `off` that all the readers share. -/
def ia_take (n : Nat) : Reader Int IArchive Str := ExceptT.mk fun ia =>
  if h : ia.len - ia.off < n then (.error (-E2BIG), ia)
  else (.ok ((ia.buffer.drop ia.off).take n),
    { ia with off := ia.off + n, off_le_len := by have := ia.off_le_len; omega })

def ia_deserialize_int : Reader Int IArchive Int := do
  return toInt (ofBe (← ia_take 4))

/-- The swap of `zoo_htonll` gives the bytes in the order of the host. -/
def ia_deserialize_long : Reader Int IArchive Int := do
  return Int.bmod (ofBe (zoo_htonll (← ia_take 8)).reverse) (2 ^ 64)

def ia_start_vector : Reader Int IArchive Int := ia_deserialize_int

/-- The byte is a signed `char`. -/
def ia_deserialize_bool : Reader Int IArchive Int := do
  return Int.bmod (ofBe (← ia_take 1)) (2 ^ 8)

/-- The comparison of a length that was read with what is left. It is signed, so
that no negative length fails it. -/
def ia_fits (len : Int) : Reader Int IArchive Unit := ExceptT.mk fun ia =>
  if (ia.len - ia.off : Nat) < len then (.error (-E2BIG), ia) else (.ok (), ia)

/-- The length -1 is the null buffer. Another negative length is too large for
`malloc`. The length is stored before the bytes are there, so an error comes with what
is stored. -/
def ia_deserialize_buffer : Reader (Int × Option Int) IArchive (Option Str) := do
  let len ← ExceptT.adapt (·, none) ia_deserialize_int
  ExceptT.adapt (·, some len) do
    ia_fits len
    if len = -1 then return none
    else if len < 0 then throw (-ENOMEM)
    else return some (← ia_take len.toNat)

/-- A string has no null: every negative length is refused. -/
def ia_deserialize_string : Reader Int IArchive Str := do
  let len ← ia_deserialize_int
  ia_fits len
  if len < 0 then throw (-EINVAL)
  else return cstr (← ia_take len.toNat)

/-- An element of a vector that was read: whole, with what its reader stored before it
failed, or as `calloc` left it. -/
inductive Elem (α π : Type)
  | whole (a : α)
  | cut (part : π)
  | blank

/-- The loop of a vector's reader: the first error ends it, and the elements that
it did not come to stay as `calloc` left them. -/
def ia_elements {α π : Type} (r : Reader (Int × π) IArchive α) :
    Nat → StateM IArchive (List (Elem α π))
  | 0 => pure []
  | n + 1 => do
    match ← r.run with
    | .ok a => return .whole a :: (← ia_elements r n)
    | .error e => return .cut e.2 :: List.replicate n .blank

/-- A generated `deserialize_*_vector`. The code of `end_vector` takes the place of
the error of an element, and also of the error of `start_vector`, which leaves in
`count` what the memory held. -/
def deserialize_vector {ε α π : Type} (uninit : Int) (r : Reader (Int × π) IArchive α) :
    Reader ε IArchive (List (Elem α π)) := ExceptT.mk do
  match ← ia_start_vector.run with
  | .ok count => return .ok (← ia_elements r count.toNat)
  | .error _ => return .ok (List.replicate uninit.toNat .blank)

/-- A generated `serialize_*_vector`. -/
def serialize_vector {α : Type} (w : α → Appender OArchive Unit) (v : List α) :
    Appender OArchive Unit := do
  oa_start_vector v.length
  v.forM w

/-! ## What the writers append -/

/-- A buffer on the wire. -/
def bufferBytes : Option Str → Str
  | none => beInt (-1)
  | some b => beInt b.length ++ b

/-- A string on the wire. -/
def stringBytes (s : Str) : Str := beInt (cstr s).length ++ cstr s

/-- A vector on the wire. -/
def vectorBytes {α : Type} (f : α → Str) (v : List α) : Str := beInt v.length ++ v.flatMap f

theorem oa_put_run (bs : Str) (oa oa' : OArchive) :
    (oa_put bs).run oa = some ((), oa') ↔
      oa'.buffer = oa.buffer ++ bs ∧ oa.room bs.length = some oa'.len := by
  simp only [oa_put, StateT.run]
  split
  case h_1 h => simp [h]
  case h_2 len h =>
    constructor
    · intro he
      cases he
      exact ⟨rfl, h⟩
    · rintro ⟨hb, hl⟩
      cases oa'
      cases h.symm.trans hl
      cases hb
      rfl

/-- What is written comes to no more than 2^29 bytes. -/
abbrev WritesBytes (w : Appender OArchive Unit) (bs : Str) : Prop :=
  Writes OArchive.buffer (2 ^ 29) w bs

theorem writes_put (bs : Str) : WritesBytes (oa_put bs) bs := by
  constructor
  · intro oa oa' h
    exact ((oa_put_run bs oa oa').mp h).1
  · intro oa hlen
    obtain ⟨l, hl⟩ := OArchive.room_returns hlen
    obtain ⟨h1, h2, h3⟩ := OArchive.room_some hl
    have hoff : (oa.buffer ++ bs).length ≤ l := by
      rw [List.length_append]
      exact h1
    exact ⟨{ buffer := oa.buffer ++ bs, len := l, len_pos := h2, len_le_max := h3, off_le_len := hoff },
      (oa_put_run _ _ _).mpr ⟨rfl, hl⟩⟩

theorem writes_int (d : Int) : WritesBytes (oa_serialize_int d) (beInt d) := writes_put _

theorem writes_long (d : Int) : WritesBytes (oa_serialize_long d) (beLong d) := by
  unfold oa_serialize_long
  rw [zoo_htonll_hostLong]
  exact writes_put _

theorem writes_bool (i : Int) : WritesBytes (oa_serialize_bool i) (boolBytes i) := writes_put _

theorem writes_buffer (b : Option Str) : WritesBytes (oa_serialize_buffer b) (bufferBytes b) := by
  cases b with
  | none => exact writes_int _
  | some b => exact (writes_int _).bind (writes_put _)

theorem writes_string (s : Str) : WritesBytes (oa_serialize_string (some s)) (stringBytes s) :=
  (writes_int _).bind (writes_put _)

theorem writes_vector {α : Type} {w : α → Appender OArchive Unit} {f : α → Str} (v : List α)
    (h : ∀ a ∈ v, WritesBytes (w a) (f a)) :
    WritesBytes (serialize_vector w v) (vectorBytes f v) := by
  refine (writes_int _).bind ?_
  induction v with
  | nil => exact Writes.nil
  | cons a v ih =>
    rw [List.flatMap_cons]
    exact (h a (by simp)).bind (ih fun b hb => h b (by simp [hb]))

/-- The allocation is within four times of what is written. -/
def OArchive.Small (oa : OArchive) : Prop := oa.len ≤ max 128 (4 * oa.off)

theorem small_put (bs : Str) : Keeps OArchive.Small (oa_put bs) := by
  intro oa oa' h hrun
  obtain ⟨hbuf, hroom⟩ := (oa_put_run bs oa oa').mp hrun
  have hoff : oa'.off = oa.off + bs.length := by
    unfold OArchive.off
    rw [hbuf, List.length_append]
  unfold OArchive.Small at h ⊢
  rw [hoff]
  unfold OArchive.room at hroom
  split at hroom
  · split at hroom
    · obtain ⟨-, h1, -⟩ := resize_buffer_some hroom oa.len_le_max (by omega)
      omega
    · cases hroom
  · have hlen := Option.some.inj hroom
    omega

theorem small_buffer (b : Option Str) : Keeps OArchive.Small (oa_serialize_buffer b) := by
  cases b with
  | none => exact small_put _
  | some b => exact (small_put _).bind (small_put _)

theorem small_vector {α : Type} {w : α → Appender OArchive Unit} (v : List α)
    (h : ∀ a ∈ v, Keeps OArchive.Small (w a)) : Keeps OArchive.Small (serialize_vector w v) := by
  refine (small_put _).bind ?_
  induction v with
  | nil => exact Keeps.nil
  | cons a v ih => exact (h a (by simp)).bind (ih fun b hb => h b (by simp [hb]))

/-! ## What the readers take -/

/-- The values of an `int32_t`. -/
def isInt32 (d : Int) : Prop := -2 ^ 31 ≤ d ∧ d < 2 ^ 31

/-- The values of an `int64_t`. -/
def isInt64 (d : Int) : Prop := -2 ^ 63 ≤ d ∧ d < 2 ^ 63

theorem toInt_ofBe_beInt {d : Int} (h : isInt32 d) : toInt (ofBe (beInt d)) = d := by
  obtain ⟨h1, h2⟩ := h
  unfold beInt toInt
  rw [ofBe_be]
  have hm : 0 ≤ d % 2 ^ 32 := Int.emod_nonneg _ (by omega)
  have hlt : d % 2 ^ 32 < 2 ^ 32 := Int.emod_lt_of_pos _ (by omega)
  have hn : (d % 2 ^ 32).toNat % 256 ^ 4 = (d % 2 ^ 32).toNat := Nat.mod_eq_of_lt (by omega)
  rw [hn, Int.toNat_of_nonneg hm]
  simp only [Int.bmod_def]
  omega

theorem bmod_ofBe_beLong {d : Int} (h : isInt64 d) :
    Int.bmod (ofBe (beLong d)) (2 ^ 64) = d := by
  obtain ⟨h1, h2⟩ := h
  unfold beLong
  rw [ofBe_be]
  have hm : 0 ≤ d % 2 ^ 64 := Int.emod_nonneg _ (by omega)
  have hlt : d % 2 ^ 64 < 2 ^ 64 := Int.emod_lt_of_pos _ (by omega)
  have hn : (d % 2 ^ 64).toNat % 256 ^ 8 = (d % 2 ^ 64).toNat := Nat.mod_eq_of_lt (by omega)
  rw [hn, Int.toNat_of_nonneg hm]
  simp only [Int.bmod_def]
  omega

theorem ia_take_short {n : Nat} {ia : IArchive} (h : ia.rest.length < n) :
    (ia_take n).run.run ia = (.error (-E2BIG), ia) := by
  rw [IArchive.length_rest] at h
  simp [ia_take, ExceptT.run, ExceptT.mk, StateT.run, h]

theorem ia_take_ok {n : Nat} {ia : IArchive} (h : n ≤ ia.rest.length) :
    ∃ ia', (ia_take n).run.run ia = (.ok (ia.rest.take n), ia') ∧ ia'.rest = ia.rest.drop n := by
  rw [IArchive.length_rest] at h
  have h1 := ia.off_le_len
  have hb : (ia.buffer.drop ia.off).take n = ia.rest.take n := by
    unfold IArchive.rest
    rw [List.drop_take, List.take_take, Nat.min_eq_left h]
  have hn : ¬ ia.len - ia.off < n := by omega
  refine ⟨{ ia with off := ia.off + n, off_le_len := by omega }, ?_, ?_⟩
  · simp [ia_take, ExceptT.run, ExceptT.mk, StateT.run, hn, hb]
  · simp [IArchive.rest, List.drop_drop]

theorem reads_take {n : Nat} {bs : Str} (hn : bs.length = n) :
    Reads IArchive.rest (ia_take n) bs bs := by
  intro ia tail h
  have hle : n ≤ ia.rest.length := by simp [h, hn]
  obtain ⟨ia', h1, h2⟩ := ia_take_ok hle
  refine ⟨ia', ?_, ?_⟩
  · rw [h1, h, List.take_left' hn]
  · rw [h2, h, List.drop_left' hn]

theorem take_ne_self {bs : Str} {n : Nat} (h : n < bs.length) : bs.take n ≠ bs := by
  intro he
  have hl := congrArg List.length he
  rw [List.length_take] at hl
  omega

theorem needs_take {n : Nat} {bs : Str} (hn : bs.length = n) :
    Needs IArchive.rest (ia_take n) bs fun _ _ => True := by
  intro ia h hne
  exact ⟨_, _, ia_take_short (hn ▸ length_lt_of_beginning h hne), trivial⟩

theorem confined_take (n : Nat) : Confined IArchive.rest (ia_take n) := by
  intro ia ib h
  by_cases hn : ia.rest.length < n
  · rw [ia_take_short hn, ia_take_short (h ▸ hn)]
    exact ⟨rfl, h⟩
  · rw [Nat.not_lt] at hn
    obtain ⟨ia', h1, h2⟩ := ia_take_ok hn
    obtain ⟨ib', h3, h4⟩ := ia_take_ok (h ▸ hn)
    rw [h1, h3, h]
    exact ⟨rfl, by rw [h2, h4, h]⟩

theorem reads_int {d : Int} (h : isInt32 d) :
    Reads IArchive.rest ia_deserialize_int (beInt d) d := by
  have hlen : (beInt d).length = 4 := by simp [beInt]
  have h1 := (reads_take hlen).map (f := fun bs => toInt (ofBe bs))
  rwa [toInt_ofBe_beInt h] at h1

theorem needs_int (d : Int) :
    Needs IArchive.rest ia_deserialize_int (beInt d) fun _ _ => True :=
  (needs_take (by simp [beInt])).map

theorem confined_int : Confined IArchive.rest ia_deserialize_int :=
  (confined_take 4).bind fun _ => Confined.pure _

theorem reads_long {d : Int} (h : isInt64 d) :
    Reads IArchive.rest ia_deserialize_long (beLong d) d := by
  have hlen : (beLong d).length = 8 := by simp [beLong]
  have h1 := (reads_take hlen).map
    (f := fun bs => Int.bmod (ofBe (zoo_htonll bs).reverse) (2 ^ 64))
  rwa [zoo_htonll_eq_reverse hlen, List.reverse_reverse, bmod_ofBe_beLong h] at h1

theorem needs_long (d : Int) :
    Needs IArchive.rest ia_deserialize_long (beLong d) fun _ _ => True :=
  (needs_take (by simp [beLong])).map

theorem confined_long : Confined IArchive.rest ia_deserialize_long :=
  (confined_take 8).bind fun _ => Confined.pure _

/-- The values that a flag is written from. -/
def isFlag (i : Int) : Prop := i = 0 ∨ i = 1

theorem reads_bool {i : Int} (h : isFlag i) :
    Reads IArchive.rest ia_deserialize_bool (boolBytes i) i := by
  have hlen : (boolBytes i).length = 1 := rfl
  have hr := (reads_take hlen).map (f := fun bs => Int.bmod (ofBe bs) (2 ^ 8))
  have hi : Int.bmod (ofBe (boolBytes i)) (2 ^ 8) = i := by
    rcases h with rfl | rfl <;> decide
  rwa [hi] at hr

theorem needs_bool (i : Int) :
    Needs IArchive.rest ia_deserialize_bool (boolBytes i) fun _ _ => True :=
  (needs_take rfl).map

theorem confined_bool : Confined IArchive.rest ia_deserialize_bool :=
  (confined_take 1).bind fun _ => Confined.pure _

theorem ia_fits_run (len : Int) (ia : IArchive) :
    (ia_fits len).run.run ia =
      if (ia.rest.length : Int) < len then (.error (-E2BIG), ia) else (.ok (), ia) := by
  rw [IArchive.length_rest]
  rfl

/-- The length that was read is checked against what is left. -/
theorem reads_fits (bs : Str) {α : Type} {r : Reader Int IArchive α} {a : α}
    (h : Reads IArchive.rest r bs a) :
    Reads IArchive.rest (do ia_fits bs.length; r) bs a := by
  intro ia tail hs
  have hn : ¬ (ia.rest.length : Int) < bs.length := by simp [hs]
  rw [run_bind, ia_fits_run, if_neg hn]
  exact h ia tail hs

/-- No negative length fails the check. -/
theorem reads_fits_of_neg {len : Int} (hlen : len < 0) {α : Type} {r : Reader Int IArchive α}
    {bs : Str} {a : α} (h : Reads IArchive.rest r bs a) :
    Reads IArchive.rest (do ia_fits len; r) bs a := by
  intro ia tail hs
  have hn : ¬ (ia.rest.length : Int) < len := by omega
  rw [run_bind, ia_fits_run, if_neg hn]
  exact h ia tail hs

theorem needs_fits (bs : Str) {α : Type} (r : Reader Int IArchive α) :
    Needs IArchive.rest (do ia_fits bs.length; r) bs fun _ _ => True := by
  intro ia hp hne
  have hn : (ia.rest.length : Int) < bs.length := by
    have := length_lt_of_beginning hp hne
    omega
  rw [run_bind, ia_fits_run, if_pos hn]
  exact ⟨_, _, rfl, trivial⟩

theorem confined_fits (len : Int) : Confined IArchive.rest (ia_fits len) := by
  intro ia ib h
  rw [ia_fits_run, ia_fits_run, h]
  split
  · exact ⟨rfl, h⟩
  · exact ⟨rfl, h⟩

/-! ## Buffers and strings -/

/-- A buffer whose length is an `int32_t`. -/
def fitsBuffer (b : Option Str) : Prop := (b.getD []).length < 2 ^ 31

/-- A C string whose length is an `int32_t`. -/
def fitsString (s : Str) : Prop := 0 ∉ s ∧ s.length < 2 ^ 31

theorem cstr_eq_self {s : Str} (h : 0 ∉ s) : cstr s = s := by
  unfold cstr
  rw [List.takeWhile_eq_self_iff]
  intro c hc
  simp only [ne_eq, decide_eq_true_eq]
  rintro rfl
  exact h hc

theorem isInt32_length {s : Str} (h : s.length < 2 ^ 31) : isInt32 s.length := by
  constructor <;> omega

theorem reads_buffer {b : Option Str} (h : fitsBuffer b) :
    Reads IArchive.rest ia_deserialize_buffer (bufferBytes b) b := by
  cases b with
  | none =>
    have h1 : isInt32 (-1) := by constructor <;> omega
    have h2 : Reads IArchive.rest ia_deserialize_buffer (beInt (-1) ++ []) none :=
      ((reads_int h1).adapt _).bind
        ((reads_fits_of_neg (by omega) (Reads.pure (none : Option Str))).adapt _)
    rwa [List.append_nil] at h2
  | some b =>
    have hb : b.length < 2 ^ 31 := h
    refine ((reads_int (isInt32_length hb)).adapt _).bind ((reads_fits b ?_).adapt _)
    have h1 : ¬ (b.length : Int) = -1 := by omega
    have h2 : ¬ (b.length : Int) < 0 := by omega
    rw [if_neg h1, if_neg h2, Int.toNat_natCast]
    exact (reads_take rfl).map

/-- What a reader that fails has stored of a buffer, from the bytes that were there. -/
def bufferPart (b : Option Str) (n : Nat) : Option Int :=
  if n < 4 then none else some (b.elim (-1) fun s => s.length)

theorem needs_buffer {b : Option Str} (h : fitsBuffer b) :
    Needs IArchive.rest ia_deserialize_buffer (bufferBytes b)
      fun n e => e.2 = bufferPart b n := by
  have hint : ∀ d : Int, Needs IArchive.rest (ExceptT.adapt (·, (none : Option Int)) ia_deserialize_int)
      (beInt d) fun _ e => e.2 = none := fun d => (needs_int d).adapt fun _ _ _ => rfl
  have h4 : ∀ d : Int, (beInt d).length = 4 := fun d => by simp [beInt]
  cases b with
  | none =>
    have h1 : isInt32 (-1) := by constructor <;> omega
    have hn : Needs IArchive.rest ia_deserialize_buffer (beInt (-1) ++ []) _ :=
      (hint (-1)).bind ((reads_int h1).adapt _) (Needs.nil (Q := fun _ _ => True) _)
    rw [List.append_nil] at hn
    refine hn.mono fun n e hlt he => ?_
    rw [h4] at hlt
    simp only [h4, if_pos hlt] at he
    rw [he, bufferPart, if_pos hlt]
  | some b =>
    have hbody := (needs_fits b
      (if (b.length : Int) = -1 then return none
        else if (b.length : Int) < 0 then throw (-ENOMEM)
        else return some (← ia_take (b.length : Int).toNat))).adapt
      (f := fun e => (e, some (b.length : Int))) (R := fun _ e => e.2 = some (b.length : Int))
      fun _ _ _ => rfl
    have hn : Needs IArchive.rest ia_deserialize_buffer (beInt b.length ++ b) _ :=
      (hint _).bind ((reads_int (isInt32_length h)).adapt _) hbody
    refine hn.mono fun n e _ he => ?_
    rw [h4] at he
    unfold bufferPart
    split at he
    case isTrue hlt => rw [he, if_pos hlt]
    case isFalse hge => rw [he, if_neg hge]; rfl

theorem reads_string {s : Str} (h : fitsString s) :
    Reads IArchive.rest ia_deserialize_string (stringBytes s) s := by
  unfold stringBytes
  rw [cstr_eq_self h.1]
  refine (reads_int (isInt32_length h.2)).bind (reads_fits s ?_)
  have h2 : ¬ (s.length : Int) < 0 := by omega
  rw [if_neg h2, Int.toNat_natCast]
  have h3 : Reads IArchive.rest (ia_take s.length) s s := reads_take rfl
  have h4 := h3.map (f := cstr)
  rwa [cstr_eq_self h.1] at h4

theorem needs_string {s : Str} (h : fitsString s) :
    Needs IArchive.rest ia_deserialize_string (stringBytes s) fun _ _ => True := by
  unfold stringBytes
  rw [cstr_eq_self h.1]
  exact ((needs_int _).bind (reads_int (isInt32_length h.2)) (needs_fits s _)).mono
    fun _ _ _ _ => trivial

theorem confined_buffer : Confined IArchive.rest ia_deserialize_buffer := by
  refine (confined_int.adapt _).bind fun len =>
    Confined.adapt _ ((confined_fits len).bind fun _ => ?_)
  split
  · exact Confined.pure _
  · split
    · exact Confined.throw _
    · exact (confined_take _).bind fun _ => Confined.pure _

theorem confined_string : Confined IArchive.rest ia_deserialize_string := by
  refine confined_int.bind fun len => (confined_fits len).bind fun _ => ?_
  split
  · exact Confined.throw _
  · exact (confined_take _).bind fun _ => Confined.pure _

/-! ## Vectors -/

section
variable {ε α γ π : Type} {r : Reader (Int × π) IArchive α} {f : γ → Str} {g : γ → α}

theorem ia_elements_succ (r : Reader (Int × π) IArchive α) (n : Nat) (ia : IArchive) :
    (ia_elements r (n + 1)).run ia =
      match r.run.run ia with
      | (.ok a, ia') =>
        (.whole a :: ((ia_elements r n).run ia').1, ((ia_elements r n).run ia').2)
      | (.error e, ia') => (.cut e.2 :: List.replicate n .blank, ia') := by
  rw [ia_elements]
  simp only [StateT.run_bind]
  rcases r.run.run ia with ⟨_ | _, _⟩ <;> rfl

theorem reads_elements {v : List γ} (h : ∀ x ∈ v, Reads IArchive.rest r (f x) (g x))
    {ia : IArchive} {tail : Str} (hs : ia.rest = v.flatMap f ++ tail) :
    ∃ ia', (ia_elements r v.length).run ia = (v.map fun x => .whole (g x), ia') ∧
      ia'.rest = tail := by
  induction v generalizing ia with
  | nil => exact ⟨ia, rfl, by simpa using hs⟩
  | cons a v ih =>
    rw [List.flatMap_cons, List.append_assoc] at hs
    obtain ⟨ia1, h1, hr1⟩ := h a (by simp) ia _ hs
    obtain ⟨ia2, h2, hr2⟩ := ih (fun b hb => h b (by simp [hb])) hr1
    refine ⟨ia2, ?_, hr2⟩
    rw [List.length_cons, ia_elements_succ, h1]
    simp only [h2, List.map_cons]

theorem confined_elements (h : Confined IArchive.rest r) (n : Nat) {ia ib : IArchive}
    (hs : ia.rest = ib.rest) :
    ((ia_elements r n).run ia).1 = ((ia_elements r n).run ib).1 ∧
      ((ia_elements r n).run ia).2.rest = ((ia_elements r n).run ib).2.rest := by
  induction n generalizing ia ib with
  | zero => exact ⟨rfl, hs⟩
  | succ n ih =>
    rw [ia_elements_succ, ia_elements_succ]
    obtain ⟨h1, h2⟩ := h ia ib hs
    revert h1 h2
    rcases r.run.run ia with ⟨ra, ia'⟩
    rcases r.run.run ib with ⟨rb, ib'⟩
    rintro rfl h2
    cases ra with
    | error e => exact ⟨rfl, h2⟩
    | ok a =>
      obtain ⟨h3, h4⟩ := ih h2
      exact ⟨by simp only [h3], h4⟩

theorem deserialize_vector_run (uninit : Int) (r : Reader (Int × π) IArchive α) (ia : IArchive) :
    (deserialize_vector uninit r : Reader ε IArchive _).run.run ia =
      match ia_start_vector.run.run ia with
      | (.ok count, ia') =>
        (.ok ((ia_elements r count.toNat).run ia').1, ((ia_elements r count.toNat).run ia').2)
      | (.error _, ia') => (.ok (List.replicate uninit.toNat .blank), ia') := by
  unfold deserialize_vector
  simp only [ExceptT.run_mk, StateT.run_bind]
  rcases ia_start_vector.run.run ia with ⟨_ | _, _⟩ <;> rfl

theorem reads_vector (uninit : Int) {v : List γ} (hn : v.length < 2 ^ 31)
    (h : ∀ x ∈ v, Reads IArchive.rest r (f x) (g x)) :
    Reads IArchive.rest (deserialize_vector uninit r : Reader ε IArchive _) (vectorBytes f v)
      (v.map fun x => .whole (g x)) := by
  intro ia tail hs
  unfold vectorBytes at hs
  rw [List.append_assoc] at hs
  have hlen : isInt32 v.length := by constructor <;> omega
  obtain ⟨ia1, h1, hr1⟩ := reads_int hlen ia _ hs
  obtain ⟨ia2, h2, hr2⟩ := reads_elements h hr1
  refine ⟨ia2, ?_, hr2⟩
  rw [deserialize_vector_run, ia_start_vector, h1]
  simp only [Int.toNat_natCast, h2]

theorem confined_vector (uninit : Int) (h : Confined IArchive.rest r) :
    Confined IArchive.rest (deserialize_vector uninit r : Reader ε IArchive _) := by
  intro ia ib hs
  rw [deserialize_vector_run, deserialize_vector_run]
  obtain ⟨h1, h2⟩ := confined_int ia ib hs
  unfold ia_start_vector
  revert h1 h2
  rcases ia_deserialize_int.run.run ia with ⟨ra, ia'⟩
  rcases ia_deserialize_int.run.run ib with ⟨rb, ib'⟩
  rintro rfl h2
  cases ra with
  | error e => exact ⟨rfl, h2⟩
  | ok count =>
    obtain ⟨h3, h4⟩ := confined_elements h count.toNat h2
    exact ⟨by simp only [h3], h4⟩

/-- A list of elements that breaks off: the whole ones are there, then what was stored
of the next one, and the others are blank. -/
theorem elements_of_truncated {part : γ → Nat → π} {v : List γ}
    (h : ∀ x ∈ v, Reads IArchive.rest r (f x) (g x) ∧
      Needs IArchive.rest r (f x) fun n e => e.2 = part x n)
    {ia : IArchive} (hp : ia.rest <+: v.flatMap f) (hne : ia.rest ≠ v.flatMap f) :
    ∃ front x back, v = front ++ x :: back ∧
      (front.flatMap f).length ≤ ia.rest.length ∧
      ia.rest.length < (front.flatMap f).length + (f x).length ∧
      ((ia_elements r v.length).run ia).1 =
        front.map (fun y => .whole (g y)) ++
          .cut (part x (ia.rest.length - (front.flatMap f).length)) ::
          List.replicate back.length .blank := by
  induction v generalizing ia with
  | nil => exact absurd (List.prefix_nil.mp hp) hne
  | cons a v ih =>
    rw [List.flatMap_cons] at hp hne
    obtain ⟨hr, hn⟩ := h a (by simp)
    rw [List.length_cons, ia_elements_succ]
    rcases prefix_append_cases hp hne with ⟨h1, h2⟩ | ⟨l, h1, h2, h3⟩
    · obtain ⟨e, ia', he, hpart⟩ := hn ia h1 h2
      have hlt := length_lt_of_beginning h1 h2
      exact ⟨[], a, v, rfl, by simp, by simpa using hlt, by simp [he, hpart]⟩
    · obtain ⟨ia', he, hrest⟩ := hr ia l h1
      obtain ⟨front, x, back, rfl, hle, hlt, hgot⟩ :=
        @ih (fun b hb => h b (by simp [hb])) ia' (hrest ▸ h2) (hrest ▸ h3)
      have hall : ia.rest.length = (f a).length + ia'.rest.length := by
        rw [h1, hrest, List.length_append]
      have hfront : ((a :: front).flatMap f).length = (f a).length + (front.flatMap f).length := by
        rw [List.flatMap_cons, List.length_append]
      have hcut : ia.rest.length - ((a :: front).flatMap f).length =
          ia'.rest.length - (front.flatMap f).length := by omega
      refine ⟨a :: front, x, back, rfl, by omega, by omega, ?_⟩
      rw [hcut, he]
      simp only [hgot, List.map_cons, List.cons_append]

/-- The same behind a count that is whole. -/
theorem vector_of_truncated (uninit : Int) {part : γ → Nat → π} {v : List γ}
    (hn : v.length < 2 ^ 31)
    (h : ∀ x ∈ v, Reads IArchive.rest r (f x) (g x) ∧
      Needs IArchive.rest r (f x) fun n e => e.2 = part x n) {len : Nat}
    (h4 : 4 ≤ len) (hlen : len < (vectorBytes f v).length) {ia : IArchive}
    (hs : ia.rest = (vectorBytes f v).take len) :
    ∃ front x back, v = front ++ x :: back ∧
      4 + (front.flatMap f).length ≤ len ∧ len < 4 + (front.flatMap f).length + (f x).length ∧
      ∃ ia', (deserialize_vector uninit r : Reader ε IArchive _).run.run ia =
        (.ok (front.map (fun y => .whole (g y)) ++
          .cut (part x (len - (4 + (front.flatMap f).length))) ::
          List.replicate back.length .blank), ia') := by
  have hcount : (beInt v.length).length = 4 := by simp [beInt]
  have hint : isInt32 v.length := by constructor <;> omega
  unfold vectorBytes at hs hlen
  rw [List.take_append, List.take_of_length_le (hcount ▸ h4), hcount] at hs
  rw [List.length_append, hcount] at hlen
  obtain ⟨ia', h1, hrest⟩ := reads_int hint _ _ hs
  have hp : ia'.rest <+: v.flatMap f := by
    rw [hrest]
    exact List.take_prefix _ _
  have hne : ia'.rest ≠ v.flatMap f := by
    rw [hrest]
    exact take_ne_self (by omega)
  obtain ⟨front, x, back, hv, hle, hlt, hgot⟩ := elements_of_truncated h hp hne
  have hroom := congrArg List.length hrest
  rw [List.length_take] at hroom
  have hcut : ia'.rest.length - (front.flatMap f).length =
      len - (4 + (front.flatMap f).length) := by omega
  rw [hcut] at hgot
  refine ⟨front, x, back, hv, by omega, by omega, ((ia_elements r v.length).run ia').2, ?_⟩
  rw [deserialize_vector_run, ia_start_vector, h1]
  simp only [Int.toNat_natCast, hgot]

end

end ZookZhubei
