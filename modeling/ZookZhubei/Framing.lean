-- Messages on the socket. A message goes out behind its length and comes in
-- the same way, in as many pieces as the socket likes. See `send_buffer`,
-- `flush_send_queue`, `recv_buffer` and `check_events` in `zookeeper.c`.
import ZookZhubei.Recordio
import ZookZhubei.Runs

namespace ZookZhubei

open Codec Runs

/-- The length of a message is an `int`. -/
def fitsFrame (b : Str) : Prop := b.length < 2 ^ 31

instance (b : Str) : Decidable (fitsFrame b) := inferInstanceAs (Decidable (_ < _))

theorem beInt_length {b : Str} (h : fitsFrame b) : beInt b.length ++ b = frame b := by
  unfold fitsFrame at h
  have hm : (b.length : Int) % 2 ^ 32 = b.length := Int.emod_eq_of_lt (by omega) (by omega)
  unfold beInt frame
  rw [hm, Int.toNat_natCast]

/-! ## Sending -/

/-- What `zookeeper_send` answers. -/
inductive Sent
  | bytes (n : Nat)
  | again
  | failed
deriving DecidableEq, Repr

/-- A `buffer_list_t` of `to_send`. -/
structure OutBuffer where
  buffer : Str
  curr_offset : Nat
deriving DecidableEq, Repr

/-- The comparison at the end of `send_buffer`. -/
def OutBuffer.whole (b : OutBuffer) : Int := if b.curr_offset = b.buffer.length + 4 then 1 else 0

/-- The second half of `send_buffer`: its code, the buffer, and what went out. -/
def send_rest (b : OutBuffer) : Sent → Int × OutBuffer × Str
  | .failed => (-1, b, [])
  | .again => (b.whole, b, [])
  | .bytes n =>
    let b' := { b with curr_offset := b.curr_offset + n }
    (b'.whole, b', (b.buffer.drop (b.curr_offset - 4)).take n)

def send_buffer (b : OutBuffer) (first second : Sent) : Int × OutBuffer × Str :=
  if b.curr_offset < 4 then
    match first with
    | .failed => (-1, b, [])
    | .again => (0, b, [])
    | .bytes n =>
      let b' := { b with curr_offset := b.curr_offset + n }
      let out := ((beInt b.buffer.length).drop b.curr_offset).take n
      if 4 ≤ b'.curr_offset then
        let r := send_rest b' second
        (r.1, r.2.1, out ++ r.2.2)
      else (b'.whole, b', out)
  else send_rest b second

/-- The socket takes no more than it is given. -/
def Sent.within (room : Nat) : Sent → Bool
  | .bytes n => n ≤ room
  | _ => true

/-- The answers that the two calls of `send_buffer` can get. -/
def sendable (b : OutBuffer) (first second : Sent) : Bool :=
  if b.curr_offset < 4 then
    first.within (4 - b.curr_offset) && second.within b.buffer.length
  else second.within (b.buffer.length - (b.curr_offset - 4))

/-- One connection as its sender sees it. `wire` is all that went out on it.
`queued` and `sent` are the messages that were put in the queue, in the order in
which they stand there, and those that `remove_buffer` took off it. -/
structure Outgoing where
  connected : Bool
  to_send : List OutBuffer
  wire : Str
  queued : List Str
  sent : List Str
deriving DecidableEq, Repr

inductive OutAct
  /-- `queue_buffer_bytes`: a request of the program. -/
  | queue (b : Str)
  /-- `queue_front_buffer_bytes`: the watches and the credentials after a handshake. -/
  | push (b : Str)
  /-- The handshake is through. -/
  | connect
  /-- One turn of the loop of `flush_send_queue`, with the two answers of the socket. -/
  | flush (first second : Sent)
  /-- `cleanup_bufs`, and a new socket. -/
  | cleanup
  /-- A new socket alone: `update_addrs` closed the old one for a list that changed. -/
  | move
deriving DecidableEq, Repr

def Outgoing.closed : Outgoing :=
  { connected := false, to_send := [], wire := [], queued := [], sent := [] }

/-- What a turn of the loop leaves, after `send_buffer` on the head of the queue.
An error goes to `handle_socket_error_msg` and from there to `cleanup_bufs`. -/
def Outgoing.flushed (s : Outgoing) (tail : List OutBuffer) (r : Int × OutBuffer × Str) : Outgoing :=
  if r.1 < 0 then .closed
  else if r.1 = 0 then { s with to_send := r.2.1 :: tail, wire := s.wire ++ r.2.2 }
  else { s with to_send := tail, wire := s.wire ++ r.2.2, sent := s.sent ++ [r.2.1.buffer] }

def Outgoing.step (s : Outgoing) : OutAct → Option Outgoing
  | .queue b =>
    if fitsFrame b then
      some { s with to_send := s.to_send ++ [{ buffer := b, curr_offset := 0 }],
                    queued := s.queued ++ [b] }
    else none
  | .push b =>
    if fitsFrame b then
      some { s with to_send := { buffer := b, curr_offset := 0 } :: s.to_send,
                    queued := s.sent ++ b :: s.queued.drop s.sent.length }
    else none
  | .connect => if s.connected then none else some { s with connected := true }
  | .flush first second =>
    match s.to_send with
    | [] => none
    | b :: tail =>
      if s.connected && sendable b first second then
        some (s.flushed tail (send_buffer b first second))
      else none
  | .cleanup => some .closed
  | .move => some { s with connected := false, wire := [], queued := s.to_send.map OutBuffer.buffer,
                           sent := [] }

def outgoing : System Outgoing OutAct := { start := fun s => s = .closed, step := Outgoing.step }

/-- Nothing is put in front of a message that is partly on the wire, and no such message
is taken to a new socket. -/
def pushesWhole (s : Outgoing) : OutAct → Prop
  | .push _ | .move => ∀ b ∈ s.to_send, b.curr_offset = 0
  | _ => True

instance (s : Outgoing) : (a : OutAct) → Decidable (pushesWhole s a)
  | .push _ => inferInstanceAs (Decidable (∀ b ∈ s.to_send, b.curr_offset = 0))
  | .move => inferInstanceAs (Decidable (∀ b ∈ s.to_send, b.curr_offset = 0))
  | .queue _ => .isTrue trivial
  | .connect => .isTrue trivial
  | .flush _ _ => .isTrue trivial
  | .cleanup => .isTrue trivial

/-- What is on the wire of a message. -/
def OutBuffer.out (b : OutBuffer) : Str := (frame b.buffer).take b.curr_offset

theorem length_frame (b : Str) : (frame b).length = 4 + b.length := by simp [frame]

/-- What `send_buffer` does when the socket takes no more than it is given: it puts
out the next bytes of the frame, and says 1 when the frame is all out. -/
structure SendSpec (b : OutBuffer) (r : Int × OutBuffer × Str) : Prop where
  same : r.2.1.buffer = b.buffer
  out : r.2.1.out = b.out ++ r.2.2
  le : r.2.1.curr_offset ≤ 4 + b.buffer.length
  more : r.1 = 0 → r.2.1.curr_offset < 4 + b.buffer.length
  done : 0 < r.1 → r.2.1.curr_offset = 4 + b.buffer.length

theorem out_add (b : OutBuffer) (n : Nat) :
    ({ b with curr_offset := b.curr_offset + n } : OutBuffer).out =
      b.out ++ ((frame b.buffer).drop b.curr_offset).take n :=
  List.take_add

theorem send_rest_spec {b : OutBuffer} (h4 : 4 ≤ b.curr_offset)
    (hle : b.curr_offset ≤ 4 + b.buffer.length) {second : Sent}
    (hs : second.within (b.buffer.length - (b.curr_offset - 4)) = true) :
    SendSpec b (send_rest b second) := by
  unfold send_rest
  cases second with
  | failed => exact ⟨rfl, by simp, hle, by simp, by simp⟩
  | again =>
    refine ⟨rfl, by simp, hle, ?_, ?_⟩
    · simp only [OutBuffer.whole]
      split
      · simp
      · intro _
        omega
    · simp only [OutBuffer.whole]
      split
      · intro _
        omega
      · simp
  | bytes n =>
    simp only [Sent.within, decide_eq_true_eq] at hs
    have hdrop : (frame b.buffer).drop b.curr_offset = b.buffer.drop (b.curr_offset - 4) := by
      unfold frame
      rw [List.drop_append]
      simp [h4]
    refine ⟨rfl, ?_, ?_, ?_, ?_⟩
    · rw [out_add, hdrop]
    · simp only
      omega
    · simp only [OutBuffer.whole]
      split
      · simp
      · intro _
        omega
    · simp only [OutBuffer.whole]
      split
      · intro _
        omega
      · simp

theorem send_buffer_spec {b : OutBuffer} (hb : fitsFrame b.buffer)
    (hle : b.curr_offset < 4 + b.buffer.length) {first second : Sent}
    (hs : sendable b first second = true) : SendSpec b (send_buffer b first second) := by
  unfold sendable at hs
  unfold send_buffer
  split
  · rename_i hlt
    simp only [hlt, if_true, Bool.and_eq_true] at hs
    cases first with
    | failed => exact ⟨rfl, by simp, Nat.le_of_lt hle, by simp, by simp⟩
    | again => exact ⟨rfl, by simp, Nat.le_of_lt hle, fun _ => hle, by simp⟩
    | bytes n =>
      obtain ⟨hn, hs⟩ := hs
      simp only [Sent.within, decide_eq_true_eq] at hn
      -- The length goes out from its own four bytes, which are those of the frame.
      have hout : ((frame b.buffer).drop b.curr_offset).take n =
          ((beInt b.buffer.length).drop b.curr_offset).take n := by
        rw [← beInt_length hb, List.drop_append_of_le_length (by simp [beInt]; omega),
          List.take_append_of_le_length (by simp [beInt]; omega)]
      dsimp only
      split
      · rename_i h4
        have h0 : b.curr_offset + n - 4 = 0 := by omega
        have hsecond : second.within (b.buffer.length - (b.curr_offset + n - 4)) = true := by
          simpa [h0] using hs
        have h := send_rest_spec (b := { b with curr_offset := b.curr_offset + n }) h4
          (by simp only; omega) hsecond
        refine ⟨h.same, ?_, h.le, h.more, h.done⟩
        rw [h.out, out_add, hout, List.append_assoc]
      · rename_i h4
        refine ⟨rfl, by rw [out_add, hout], by simp only; omega, fun _ => by simp only; omega, ?_⟩
        have hne : b.curr_offset + n ≠ b.buffer.length + 4 := by omega
        simp [OutBuffer.whole, hne]
  · rename_i hlt
    simp only [hlt, if_false] at hs
    exact send_rest_spec (by omega) (by omega) hs

/-- The wire of a connection: the messages that are out, then the start of the head
of the queue. Nothing of the others is out, and nothing at all before the handshake. -/
structure Outgoing.Sound (s : Outgoing) : Prop where
  fits : ∀ b ∈ s.to_send, fitsFrame b.buffer
  fitsSent : ∀ b ∈ s.sent, fitsFrame b
  order : s.queued = s.sent ++ s.to_send.map OutBuffer.buffer
  head : ∀ b ∈ s.to_send.head?, b.curr_offset < 4 + b.buffer.length
  others : ∀ b ∈ s.to_send.tail, b.curr_offset = 0
  wire : s.wire = s.sent.flatMap frame ++ s.to_send.head?.elim [] OutBuffer.out

theorem Outgoing.sound_closed : Outgoing.closed.Sound := by
  constructor <;> simp [Outgoing.closed]

theorem Outgoing.sound_queue {s : Outgoing} (h : s.Sound) {b : Str} (hb : fitsFrame b) :
    Outgoing.Sound { s with to_send := s.to_send ++ [{ buffer := b, curr_offset := 0 }],
                            queued := s.queued ++ [b] } := by
  obtain ⟨fits, fitsSent, order, head, others, wire⟩ := h
  have hlast : ∀ c ∈ [({ buffer := b, curr_offset := 0 } : OutBuffer)],
      fitsFrame c.buffer ∧ c.curr_offset = 0 := by simpa using hb
  constructor
  · intro c hc
    rcases List.mem_append.mp hc with hc | hc
    · exact fits c hc
    · exact (hlast c hc).1
  · exact fitsSent
  · simp [order]
  · cases hq : s.to_send with
    | nil => simp
    | cons c tail => simpa [hq] using head
  · cases hq : s.to_send with
    | nil => simp
    | cons c tail =>
      intro d hd
      rcases List.mem_append.mp hd with hd | hd
      · exact others d (by simpa [hq] using hd)
      · exact (hlast d hd).2
  · rw [wire]
    cases hq : s.to_send with
    | nil => simp [OutBuffer.out]
    | cons c tail => simp

theorem Outgoing.sound_push {s : Outgoing} (h : s.Sound) {b : Str} (hb : fitsFrame b)
    (hz : ∀ c ∈ s.to_send, c.curr_offset = 0) :
    Outgoing.Sound { s with to_send := { buffer := b, curr_offset := 0 } :: s.to_send,
                            queued := s.sent ++ b :: s.queued.drop s.sent.length } := by
  obtain ⟨fits, fitsSent, order, head, others, wire⟩ := h
  constructor
  · simpa using ⟨hb, fits⟩
  · exact fitsSent
  · simp [order]
  · simp
  · exact hz
  · rw [wire]
    cases hq : s.to_send with
    | nil => simp [OutBuffer.out]
    | cons c tail => simp [OutBuffer.out, hz c (by simp [hq])]

theorem Outgoing.sound_flush {s : Outgoing} (h : s.Sound) {b : OutBuffer} {tail : List OutBuffer}
    (hq : s.to_send = b :: tail) {r : Int × OutBuffer × Str} (hr : SendSpec b r) :
    (s.flushed tail r).Sound := by
  obtain ⟨fits, fitsSent, order, head, others, wire⟩ := h
  rw [hq] at fits order head others wire
  simp only [List.head?_cons, Option.elim_some] at wire
  unfold Outgoing.flushed
  split
  · exact Outgoing.sound_closed
  · split
    · rename_i h0
      constructor <;> simp_all [hr.same, hr.out, hr.more h0]
    · have h1 : 0 < r.1 := by omega
      have hout : r.2.1.out = frame b.buffer := by
        unfold OutBuffer.out
        rw [hr.same, hr.done h1, ← length_frame, List.take_length]
      have hz : ∀ c ∈ tail, c.curr_offset = 0 := by simpa using others
      constructor
      · exact fun c hc => fits c (by simp [hc])
      · simp only [List.mem_append, List.mem_singleton, hr.same]
        rintro c (hc | rfl)
        · exact fitsSent c hc
        · exact fits b (by simp)
      · simp [order, hr.same]
      · intro c hc
        rw [hz c (List.mem_of_mem_head? hc)]
        omega
      · exact fun c hc => hz c (List.mem_of_mem_tail hc)
      · simp only [wire, List.append_assoc, ← hr.out, hout, hr.same, List.flatMap_append,
          List.flatMap_cons, List.flatMap_nil, List.append_nil]
        cases tail with
        | nil => simp
        | cons c tail => simp [OutBuffer.out, hz c (by simp)]

theorem Outgoing.sound_move {s : Outgoing} (h : s.Sound)
    (hw : ∀ b ∈ s.to_send, b.curr_offset = 0) :
    Outgoing.Sound { s with connected := false, wire := [], sent := [],
                            queued := s.to_send.map OutBuffer.buffer } := by
  refine ⟨h.fits, by simp, rfl, h.head, h.others, ?_⟩
  cases hq : s.to_send with
  | nil => rfl
  | cons b tail => simp [OutBuffer.out, hw b (by simp [hq])]

theorem Outgoing.sound_step {s s' : Outgoing} {a : OutAct} (h : s.Sound) (hw : pushesWhole s a)
    (hs : s.step a = some s') : s'.Sound := by
  cases a with
  | queue b =>
    simp only [Outgoing.step] at hs
    split at hs
    · rename_i hb
      cases hs
      exact Outgoing.sound_queue h hb
    · cases hs
  | push b =>
    simp only [Outgoing.step] at hs
    split at hs
    · rename_i hb
      cases hs
      exact Outgoing.sound_push h hb hw
    · cases hs
  | connect =>
    simp only [Outgoing.step] at hs
    split at hs
    · cases hs
    · cases hs
      obtain ⟨fits, fitsSent, order, head, others, wire⟩ := h
      exact ⟨fits, fitsSent, order, head, others, wire⟩
  | flush first second =>
    simp only [Outgoing.step] at hs
    split at hs
    · cases hs
    · rename_i b tail hq
      split at hs
      · rename_i hok
        cases hs
        simp only [Bool.and_eq_true] at hok
        have hb := h.fits b (by simp [hq])
        have hle := h.head b (by simp [hq])
        exact Outgoing.sound_flush h hq (send_buffer_spec hb hle hok.2)
      · cases hs
  | cleanup =>
    cases hs
    exact Outgoing.sound_closed
  | move =>
    cases hs
    exact Outgoing.sound_move h hw

theorem Outgoing.sound_of_reach {s : Outgoing} (h : outgoing.ReachBy pushesWhole s) : s.Sound :=
  h.invariant (fun _ h0 => h0 ▸ Outgoing.sound_closed) fun _ _ _ hi hw hs => Outgoing.sound_step hi hw hs

theorem Outgoing.not_framed_out {s : Outgoing} (h : s.Sound) :
    framed (s.to_send.head?.elim [] OutBuffer.out) = false := by
  cases hq : s.to_send with
  | nil => rfl
  | cons b tail =>
    have hb := h.fits b (by simp [hq])
    have hlt := h.head b (by simp [hq])
    unfold fitsFrame at hb
    refine not_framed_of_prefix (b := b.buffer) (by omega) (List.take_prefix _ _) ?_
    intro he
    have hl := congrArg List.length he
    simp only [Option.elim_some, List.head?_cons, OutBuffer.out, List.length_take,
      length_frame] at hl
    omega

/-- A peer that cuts the wire into frames has the messages that left the queue, in
the order of the queue, and the start of the next one. -/
theorem the_wire_carries_the_queue_in_order {s : Outgoing}
    (h : outgoing.ReachBy pushesWhole s) :
    ∃ waiting held, s.queued = s.sent ++ waiting ∧ unframe s.wire = (s.sent, held) ∧
      held <+: waiting.flatMap frame ∧ (s.to_send = [] → waiting = [] ∧ held = []) := by
  have hs := Outgoing.sound_of_reach h
  refine ⟨s.to_send.map OutBuffer.buffer, s.to_send.head?.elim [] OutBuffer.out, hs.order, ?_, ?_, ?_⟩
  · have hfits : ∀ b ∈ s.sent, b.length < 2 ^ 32 := by
      intro b hb
      have := hs.fitsSent b hb
      unfold fitsFrame at this
      omega
    rw [hs.wire, unframe_flatMap hfits, unframe_of_not_framed (Outgoing.not_framed_out hs)]
    simp
  · cases hq : s.to_send with
    | nil => exact List.nil_prefix
    | cons b tail =>
      simp only [List.head?_cons, Option.elim_some, List.map_cons, List.flatMap_cons, OutBuffer.out]
      exact (List.take_prefix _ _).trans (List.prefix_append _ _)
  · intro hq
    simp [hq]

/-- The watches go out in front of a request, and the request in two pieces of which
the second is still to come. -/
theorem the_watches_go_out_before_the_request :
    ∃ s, outgoing.ReachBy pushesWhole s ∧ s.queued = [[8, 8], [5]] ∧
      ∃ waiting held, s.queued = s.sent ++ waiting ∧ unframe s.wire = (s.sent, held) ∧
        held <+: waiting.flatMap frame ∧ (s.to_send = [] → waiting = [] ∧ held = []) := by
  obtain ⟨s, hs, ht⟩ := System.ReachBy.of_run (M := outgoing) (G := pushesWhole) (s := .closed)
    ([.queue [5], .connect, .push [8, 8], .flush (.bytes 4) (.bytes 2), .flush (.bytes 3) .again])
    (fun s => s.queued == [[8, 8], [5]]) (.start rfl) (by decide)
  exact ⟨s, hs, by simpa using ht, the_wire_carries_the_queue_in_order hs⟩

/-! ## Receiving -/

/-- What `recv` answers. 0 is the end of the stream, and also the answer to a
request for no bytes. -/
inductive Recv
  | got (chunk : Str)
  | closed
  | again
  | failed
deriving DecidableEq, Repr

/-- The `input_buffer`: the four bytes of `len` in memory, the offset, and the bytes
of the message once its memory is allocated. -/
structure InBuffer where
  mem : Str
  curr_offset : Nat
  buffer : Option Str
deriving DecidableEq, Repr

/-- `len` on a little-endian host. -/
def InBuffer.len (b : InBuffer) : Int := toInt (ofBe b.mem.reverse)

/-- `allocate_buffer(0, 0)` leaves the size of the structure in `len`. -/
def allocate_buffer : InBuffer := { mem := [24, 0, 0, 0], curr_offset := 0, buffer := none }

/-- The comparison at the end of `recv_buffer`. -/
def InBuffer.whole (b : InBuffer) : Int := if (b.curr_offset : Int) = b.len + 4 then 1 else 0

/-- The second half of `recv_buffer`. A length that is negative got no memory. -/
def recv_rest (b : InBuffer) (second : Recv) : Int × InBuffer :=
  match b.buffer with
  | none => (b.whole, b)
  | some got =>
    match second with
    | .got chunk =>
      let b' := { b with buffer := some (got ++ chunk), curr_offset := b.curr_offset + chunk.length }
      (b'.whole, b')
    | .again => (b.whole, b)
    | .closed => (-1, b)
    | .failed => (-1, b)

/-- The length is read into its own memory and turned around when it is whole. -/
def recv_len (b : InBuffer) (chunk : Str) : InBuffer :=
  let mem := b.mem.take b.curr_offset ++ chunk ++ b.mem.drop (b.curr_offset + chunk.length)
  let b' := { b with mem, curr_offset := b.curr_offset + chunk.length }
  if b'.curr_offset = 4 then
    let b' := { b' with mem := mem.reverse }
    { b' with buffer := if b'.len < 0 then none else some [] }
  else b'

def recv_buffer (b : InBuffer) (first second : Recv) : Int × InBuffer :=
  if b.curr_offset < 4 then
    match first with
    | .got chunk => recv_rest (recv_len b chunk) second
    | .again => (0, b)
    | .closed => (-1, b)
    | .failed => (-1, b)
  else recv_rest b second

/-- The bytes that an answer takes off the stream. -/
def Recv.bytes : Recv → Str
  | .got chunk => chunk
  | _ => []

@[simp] theorem Recv.bytes_got (chunk : Str) : (Recv.got chunk).bytes = chunk := rfl

/-- A chunk is not empty and no longer than what was asked for. -/
def Recv.within (room : Int) : Recv → Bool
  | .got chunk => decide (chunk ≠ []) && decide ((chunk.length : Int) ≤ room)
  | _ => true

/-- What the second half of `recv_buffer` takes off the stream. Without memory for
the message it makes no call. -/
def InBuffer.takes (b : InBuffer) (second : Recv) : Str :=
  match b.buffer with
  | none => []
  | some _ => second.bytes

/-- What `recv_buffer` takes off the stream. -/
def received (b : InBuffer) (first second : Recv) : Str :=
  if b.curr_offset < 4 then first.bytes ++ (recv_len b first.bytes).takes second
  else b.takes second

/-- The answers that the two calls of `recv_buffer` can get. -/
def receivable (b : InBuffer) (first second : Recv) : Bool :=
  if b.curr_offset < 4 then
    first.within (4 - b.curr_offset) && second.within (recv_len b first.bytes).len
  else second.within (b.len - (b.curr_offset - 4))

/-- One connection after its handshake, as `check_events` sees it. `wire` is all that
was read off the socket, and `to_process` all the messages that were queued. -/
structure Incoming where
  input_buffer : Option InBuffer
  to_process : List Str
  wire : Str
deriving DecidableEq, Repr

def Incoming.fresh : Incoming := { input_buffer := none, to_process := [], wire := [] }

inductive InAct
  /-- `check_events` on a socket that can be read, with the answers of the socket. -/
  | read (first second : Recv)
  /-- A new connection. `cleanup_bufs` or the handshake dropped the old buffer. -/
  | cleanup
deriving DecidableEq, Repr

def Incoming.step (s : Incoming) : InAct → Option Incoming
  | .read first second =>
    let b := s.input_buffer.getD allocate_buffer
    if receivable b first second then
      let wire := s.wire ++ received b first second
      let r := recv_buffer b first second
      if r.1 < 0 then some .fresh
      else if 0 < r.1 then
        some { input_buffer := none, to_process := s.to_process ++ [r.2.buffer.getD []], wire }
      else some { s with input_buffer := some r.2, wire }
    else none
  | .cleanup => some .fresh

def incoming : System Incoming InAct := { start := fun s => s = .fresh, step := Incoming.step }

/-- A buffer that read `held` of its length. -/
def InBuffer.part (held : Str) : InBuffer :=
  { mem := held ++ [24, 0, 0, 0].drop held.length, curr_offset := held.length, buffer := none }

/-- A buffer that is not whole, and the bytes that it took off the stream. -/
inductive InBuffer.Holds : InBuffer → Str → Prop
  | length {held : Str} : held.length < 4 → Holds (.part held) held
  | stuck {hdr : Str} : hdr.length = 4 → toInt (ofBe hdr) < 0 →
      Holds { mem := hdr.reverse, curr_offset := 4, buffer := none } hdr
  | body {hdr body : Str} : hdr.length = 4 → (body.length : Int) < toInt (ofBe hdr) →
      Holds { mem := hdr.reverse, curr_offset := 4 + body.length, buffer := some body }
        (hdr ++ body)

theorem toInt_natCast_le (n : Nat) : toInt n ≤ n := by
  unfold toInt
  rw [Int.bmod_def]
  split <;> omega

theorem InBuffer.Holds.not_framed {b : InBuffer} {held : Str} (h : b.Holds held) :
    framed held = false := by
  cases h with
  | length hlt =>
    have hn : ¬ 4 ≤ held.length := by omega
    simp [framed, hn]
  | stuck h4 hneg =>
    have hne : ofBe held ≠ 0 := by
      intro h0
      rw [h0] at hneg
      revert hneg
      decide
    simp [framed, h4, List.take_of_length_le (Nat.le_of_eq h4), hne]
  | body h4 hlt =>
    rename_i hdr body
    have hle := toInt_natCast_le (ofBe hdr)
    have hn : ¬ ofBe hdr ≤ body.length := by omega
    simp [framed, h4, List.take_left' h4, hn]

/-- What `recv_buffer` makes of a buffer that held `held` and took `got`. -/
structure RecvSpec (held got : Str) (r : Int × InBuffer) : Prop where
  more : r.1 = 0 → r.2.Holds (held ++ got)
  done : 0 < r.1 → ∃ hdr, held ++ got = hdr ++ r.2.buffer.getD [] ∧ hdr.length = 4 ∧
    ofBe hdr = (r.2.buffer.getD []).length

theorem RecvSpec.idle {b : InBuffer} {held : Str} (h : b.Holds held) : RecvSpec held [] (0, b) :=
  ⟨fun _ => by simpa using h, by simp⟩

theorem RecvSpec.error (held got : Str) (b : InBuffer) : RecvSpec held got (-1, b) :=
  ⟨by simp, by simp⟩

theorem whole_eq {hdr body : Str} (buffer : Option Str) :
    ({ mem := hdr.reverse, curr_offset := 4 + body.length, buffer } : InBuffer).whole =
      if (body.length : Int) = toInt (ofBe hdr) then 1 else 0 := by
  simp only [InBuffer.whole, InBuffer.len, List.reverse_reverse]
  congr 1
  rw [eq_iff_iff]
  push_cast
  constructor <;> intro h <;> omega

/-- A message that is all there or not yet. -/
theorem recvSpec_body {held got hdr body : Str} (h4 : hdr.length = 4)
    (hle : (body.length : Int) ≤ toInt (ofBe hdr)) (heq : held ++ got = hdr ++ body) :
    RecvSpec held got
      (({ mem := hdr.reverse, curr_offset := 4 + body.length, buffer := some body } : InBuffer).whole,
        { mem := hdr.reverse, curr_offset := 4 + body.length, buffer := some body }) := by
  rw [whole_eq]
  split
  · rename_i he
    refine ⟨by simp, fun _ => ⟨hdr, heq, h4, ?_⟩⟩
    -- The header was read as unsigned and compared as signed. Below 2 ^ 31 both are the same.
    have hlt := ofBe_lt hdr
    rw [h4] at hlt
    simp only [Option.getD_some]
    unfold toInt at he
    rw [Int.bmod_def] at he
    split at he <;> omega
  · refine ⟨fun _ => ?_, by simp⟩
    rw [heq]
    exact .body h4 (by omega)

theorem recv_rest_spec {held hdr body : Str} (h4 : hdr.length = 4)
    (hle : (body.length : Int) ≤ toInt (ofBe hdr)) {second : Recv}
    (hs : second.within (toInt (ofBe hdr) - body.length) = true) {got : Str}
    (heq : held ++ got = hdr ++ body) :
    RecvSpec held (got ++ second.bytes)
      (recv_rest { mem := hdr.reverse, curr_offset := 4 + body.length, buffer := some body }
        second) := by
  unfold recv_rest
  cases second with
  | closed => exact .error _ _ _
  | failed => exact .error _ _ _
  | again => exact recvSpec_body h4 hle (by simpa [Recv.bytes] using heq)
  | got chunk =>
    simp only [Recv.within, Bool.and_eq_true, decide_eq_true_eq] at hs
    have hheld : held ++ (got ++ chunk) = hdr ++ (body ++ chunk) := by
      rw [← List.append_assoc, heq, List.append_assoc]
    have h := recvSpec_body h4 (by push_cast [List.length_append]; omega) hheld
    rw [List.length_append, ← Nat.add_assoc] at h
    exact h

/-- After a part of the length its memory is no length yet. The byte that it ends with
is still 0, so that the comparison at the end fails. -/
theorem whole_of_part {held : Str} (h : held.length < 4) : (InBuffer.part held).whole = 0 := by
  unfold InBuffer.whole InBuffer.len InBuffer.part
  have hpos : 0 ≤ toInt (ofBe (held ++ [24, 0, 0, 0].drop held.length).reverse) := by
    have hub (a : UInt8) : a.toNat < 256 := a.toNat_lt
    unfold toInt
    rw [Int.bmod_def]
    match held, h with
    | [], _ => decide
    | [a], _ =>
      have := hub a
      simp [ofBe]
      omega
    | [a, b], _ =>
      have := hub a
      have := hub b
      simp [ofBe]
      omega
    | [a, b, c], _ =>
      have := hub a
      have := hub b
      have := hub c
      simp [ofBe]
      omega
  rw [if_neg]
  simp only
  omega

theorem recv_len_part {held chunk : Str} (h : held.length + chunk.length < 4) :
    recv_len (.part held) chunk = .part (held ++ chunk) := by
  have hne : held.length + chunk.length ≠ 4 := by omega
  simp [recv_len, InBuffer.part, hne, List.drop_append, List.drop_drop]

theorem recv_len_whole {held chunk : Str} (h : held.length + chunk.length = 4) :
    recv_len (.part held) chunk =
      { mem := (held ++ chunk).reverse, curr_offset := 4,
        buffer := if toInt (ofBe (held ++ chunk)) < 0 then none else some [] } := by
  have hmem : held ++ chunk ++ (held ++ [24, 0, 0, 0].drop held.length).drop 4 = held ++ chunk := by
    rw [List.drop_eq_nil_of_le (by simp; omega), List.append_nil]
  simp only [recv_len, InBuffer.part, h, if_true, List.take_left, hmem, InBuffer.len,
    List.reverse_reverse]

/-- A header that spells a negative length: no memory, and no more calls. -/
theorem whole_of_stuck {hdr : Str} (hneg : toInt (ofBe hdr) < 0) :
    ({ mem := hdr.reverse, curr_offset := 4, buffer := none } : InBuffer).whole = 0 := by
  have hw := @whole_eq hdr [] none
  have hne : ¬ ((0 : Nat) : Int) = toInt (ofBe hdr) := by omega
  simp only [List.length_nil, Nat.add_zero, hne, if_false] at hw
  exact hw

theorem recv_first_spec {held chunk : Str} {second : Recv}
    (hle : held.length + chunk.length ≤ 4)
    (hr : second.within (recv_len (.part held) chunk).len = true) :
    RecvSpec held (chunk ++ (recv_len (.part held) chunk).takes second)
      (recv_rest (recv_len (.part held) chunk) second) := by
  by_cases hpart : held.length + chunk.length < 4
  · have hlt : (held ++ chunk).length < 4 := by simpa using hpart
    rw [recv_len_part hpart]
    have hw := whole_of_part hlt
    simp only [recv_rest, InBuffer.takes, InBuffer.part, List.append_nil] at hw ⊢
    rw [hw]
    exact ⟨fun _ => .length hlt, by simp⟩
  · have h4 : (held ++ chunk).length = 4 := by
      rw [List.length_append]
      omega
    rw [recv_len_whole (by simpa using h4)] at hr ⊢
    by_cases hneg : toInt (ofBe (held ++ chunk)) < 0
    · rw [if_pos hneg]
      have hw := whole_of_stuck hneg
      simp only [recv_rest, InBuffer.takes, List.append_nil]
      rw [hw]
      exact ⟨fun _ => .stuck h4 hneg, by simp⟩
    · simp only [hneg, if_false] at hr ⊢
      have hlen : ((held ++ chunk).reverse).reverse = held ++ chunk := List.reverse_reverse _
      unfold InBuffer.len at hr
      rw [hlen] at hr
      have hnil : held ++ chunk = held ++ chunk ++ [] := (List.append_nil _).symm
      have hzero : (([] : Str).length : Int) ≤ toInt (ofBe (held ++ chunk)) := by simpa using hneg
      have hroom : second.within (toInt (ofBe (held ++ chunk)) - ([] : Str).length) = true := by
        simpa using hr
      exact recv_rest_spec h4 hzero hroom hnil

theorem recv_buffer_spec {b : InBuffer} {held : Str} (h : b.Holds held) {first second : Recv}
    (hr : receivable b first second = true) :
    RecvSpec held (received b first second) (recv_buffer b first second) := by
  unfold receivable at hr
  unfold recv_buffer received
  cases h with
  | length hlt =>
    have hoff : (InBuffer.part held).curr_offset < 4 := hlt
    simp only [hoff, if_true, Bool.and_eq_true] at hr ⊢
    cases first with
    | closed => exact .error _ _ _
    | failed => exact .error _ _ _
    | again =>
      have hp := @recv_len_part held [] (by simpa using hlt)
      have hnone : Recv.again.bytes ++ (recv_len (.part held) Recv.again.bytes).takes second = [] := by
        rw [show Recv.again.bytes = [] from rfl, hp]
        rfl
      rw [hnone]
      exact .idle (.length hlt)
    | got chunk =>
      obtain ⟨hc, hr⟩ := hr
      simp only [Recv.within, decide_eq_true_eq, Bool.and_eq_true] at hc
      have hle : (chunk.length : Int) ≤ 4 - held.length := hc.2
      have hsum : held.length + chunk.length ≤ 4 := by omega
      exact recv_first_spec hsum hr
  | stuck h4 hneg =>
    simp only [recv_rest, whole_of_stuck hneg, InBuffer.takes]
    exact .idle (.stuck h4 hneg)
  | body h4 hlt =>
    rename_i hdr body
    have hn : ¬ 4 + body.length < 4 := by omega
    simp only [hn, if_false] at hr ⊢
    have hroom : second.within (toInt (ofBe hdr) - body.length) = true := by
      simpa [InBuffer.len] using hr
    exact recv_rest_spec h4 (by omega) hroom (List.append_nil _)

/-- All that was read off the socket is cut into frames, and the buffer holds the rest. -/
def Incoming.Sound (s : Incoming) : Prop :=
  ∃ held, (s.input_buffer.getD allocate_buffer).Holds held ∧ unframe s.wire = (s.to_process, held)

theorem holds_allocate_buffer : allocate_buffer.Holds [] := by
  have h : ([] : Str).length < 4 := by decide
  exact .length h

theorem Incoming.sound_fresh : Incoming.fresh.Sound :=
  ⟨[], holds_allocate_buffer, unframe_of_not_framed rfl⟩

theorem Incoming.sound_step {s s' : Incoming} {a : InAct} (h : s.Sound)
    (hs : s.step a = some s') : s'.Sound := by
  cases a with
  | cleanup =>
    cases hs
    exact Incoming.sound_fresh
  | read first second =>
    obtain ⟨held, hb, hw⟩ := h
    simp only [Incoming.step] at hs
    split at hs
    · rename_i hr
      obtain ⟨more, done⟩ := recv_buffer_spec hb hr
      have hcut := unframe_append s.wire
        (received (s.input_buffer.getD allocate_buffer) first second)
      rw [hw] at hcut
      split at hs
      · cases hs
        exact Incoming.sound_fresh
      · split at hs
        · rename_i hpos
          cases hs
          obtain ⟨hdr, heq, h4, hn⟩ := done hpos
          have hone := unframe_cons h4 hn []
          have hnil : unframe [] = ([], []) := unframe_of_not_framed rfl
          rw [List.append_nil, hnil] at hone
          refine ⟨[], holds_allocate_buffer, ?_⟩
          rw [hcut, heq, hone]
        · cases hs
          have hh := more (by omega)
          refine ⟨_, hh, ?_⟩
          rw [hcut, unframe_of_not_framed hh.not_framed]
          simp
    · cases hs

/-- The messages that the client processes are those that a cut of all the bytes that
came in gives: in whatever pieces they came, none is lost, torn or read twice. -/
theorem the_frames_that_came_in_are_processed {s : Incoming} (h : incoming.Reach s) :
    (unframe s.wire).1 = s.to_process := by
  have hs : s.Sound := by
    refine System.Reach.invariant (P := Incoming.Sound) ?_ ?_ h
    · rintro s rfl
      exact Incoming.sound_fresh
    · exact fun _ _ _ hi hs => Incoming.sound_step hi hs
  obtain ⟨held, _, hw⟩ := hs
  rw [hw]

/-- Two messages: the first one comes in four pieces, and the second one in two. -/
theorem two_messages_that_came_in_pieces :
    ∃ s, incoming.Reach s ∧ s.to_process = [[7, 7], []] ∧ (unframe s.wire).1 = s.to_process := by
  obtain ⟨s, hs, ht⟩ := System.Reach.of_run (M := incoming) (s := .fresh)
    ([.read (.got [0, 0, 0]) .again, .read (.got [2]) (.got [7]), .read .again (.got [7]),
      .read (.got [0]) .again, .read (.got [0, 0, 0]) .again])
    (fun s => s.to_process == [[7, 7], []]) rfl (by decide)
  exact ⟨s, hs, by simpa using ht, the_frames_that_came_in_are_processed hs⟩

end ZookZhubei
