-- The handshake of a connection: the request that is laid out by hand, the
-- answer that is read into a buffer of its own, and what it makes of the
-- session. See `prime_connection`, `recv_buffer` and `check_events`.
import ZookZhubei.Jute
import ZookZhubei.Framing

namespace ZookZhubei

open Codec Runs

/-! ## The request -/

/-- `struct connect_req`. -/
structure ConnectReq where
  protocolVersion : Int
  lastZxidSeen : Int
  timeOut : Int
  sessionId : Int
  passwd : Str
  readOnly : UInt8
deriving DecidableEq, Repr

/-- A `memcpy` to an offset, and the step of the offset. -/
def memcpyAt (s : Str × Nat) (bs : Str) : Str × Nat :=
  (s.1.take s.2 ++ bs ++ s.1.drop (s.2 + bs.length), s.2 + bs.length)

/-- `serialize_prime_connect`. `passwd_len` is the size of the array. -/
def serialize_prime_connect (req : ConnectReq) (buffer : Str) : Str :=
  ([beInt req.protocolVersion, zoo_htonll (hostLong req.lastZxidSeen), beInt req.timeOut,
    zoo_htonll (hostLong req.sessionId), beInt req.passwd.length, req.passwd,
    [req.readOnly]].foldl memcpyAt (buffer, 0)).1

theorem foldl_memcpyAt (fields : List Str) (start buffer : Str) :
    fields.foldl memcpyAt (start ++ buffer, start.length) =
      (start ++ fields.flatten ++ buffer.drop fields.flatten.length,
        start.length + fields.flatten.length) := by
  induction fields generalizing start buffer with
  | nil => simp
  | cons f fields ih =>
    have hstep : memcpyAt (start ++ buffer, start.length) f =
        ((start ++ f) ++ buffer.drop f.length, (start ++ f).length) := by
      simp [memcpyAt, List.drop_append]
    rw [List.foldl_cons, hstep, ih]
    simp [Nat.add_assoc]

/-- The layout by hand is that of the generated `ConnectRequest` and one byte more. -/
theorem prime_connect_is_a_ConnectRequest (req : ConnectReq) (hp : req.passwd.length = 16)
    {buffer : Str} (hb : buffer.length = 45) :
    serialize_prime_connect req buffer =
      ConnectRequest.bytes (req.protocolVersion, req.lastZxidSeen, req.timeOut, req.sessionId,
        some req.passwd, ()) ++ [req.readOnly] := by
  have h := foldl_memcpyAt
    [beInt req.protocolVersion, zoo_htonll (hostLong req.lastZxidSeen), beInt req.timeOut,
      zoo_htonll (hostLong req.sessionId), beInt req.passwd.length, req.passwd, [req.readOnly]]
    [] buffer
  simp only [List.nil_append, List.length_nil, Nat.zero_add] at h
  unfold serialize_prime_connect
  rw [h]
  simp only [zoo_htonll_hostLong]
  have hlen : (beInt req.protocolVersion ++ (beLong req.lastZxidSeen ++ (beInt req.timeOut ++
      (beLong req.sessionId ++ (beInt req.passwd.length ++ (req.passwd ++ [req.readOnly])))))).length
        = 45 := by
    simp [beInt, beLong, hp]
  simp only [List.flatten_cons, List.flatten_nil, List.append_nil, hlen,
    List.drop_eq_nil_of_le (Nat.le_of_eq hb)]
  simp [ConnectRequest, record, Jute.bytes, bufferBytes]

/-- The request of a new handle, in a buffer that held other bytes. -/
theorem prime_connect_of_a_new_handle :
    serialize_prime_connect
        { protocolVersion := 0, lastZxidSeen := 0, timeOut := 10000, sessionId := 0,
          passwd := List.replicate 16 0, readOnly := 0 } (List.replicate 45 255) =
      ConnectRequest.bytes ((0 : Int), (0 : Int), (10000 : Int), (0 : Int),
        some (List.replicate 16 (0 : UInt8)), ()) ++ [0] :=
  prime_connect_is_a_ConnectRequest
    { protocolVersion := 0, lastZxidSeen := 0, timeOut := 10000, sessionId := 0,
      passwd := List.replicate 16 0, readOnly := 0 } (by simp) (by simp)

/-! ## The answer -/

/-- `struct prime_struct`. -/
structure PrimeStruct where
  len : Int
  protocolVersion : Int
  timeOut : Int
  sessionId : Int
  passwd_len : Int
  passwd : Str
  readOnly : UInt8
deriving DecidableEq, Repr

def deserialize_prime_response (buffer : Str) : PrimeStruct :=
  { len := toInt (ofBe (buffer.take 4))
    protocolVersion := toInt (ofBe ((buffer.drop 4).take 4))
    timeOut := toInt (ofBe ((buffer.drop 8).take 4))
    sessionId := Int.bmod (ofBe (zoo_htonll ((buffer.drop 12).take 8)).reverse) (2 ^ 64)
    passwd_len := toInt (ofBe ((buffer.drop 20).take 4))
    passwd := (buffer.drop 24).take 16
    readOnly := ((buffer.drop 40).take 1).headD 0 }

/-- The answer of a server: a generated `ConnectResponse` and one byte more, framed. -/
def connectAnswer (protocolVersion timeOut sessionId : Int) (passwd : Str) (readOnly : UInt8) : Str :=
  frame (ConnectResponse.bytes (protocolVersion, timeOut, sessionId, some passwd, ()) ++ [readOnly])

/-- A field of a layout by its offset. -/
theorem field_of_layout {fields : List Str} {field : Str} (k : Nat) {off n : Nat}
    (hk : fields[k]? = some field) (hoff : (fields.take k).flatten.length = off)
    (hn : field.length = n) : (fields.flatten.drop off).take n = field := by
  obtain ⟨hlt, hf⟩ := List.getElem?_eq_some_iff.mp hk
  have hsplit : fields.flatten = (fields.take k).flatten ++ (field ++ (fields.drop (k + 1)).flatten) := by
    rw [← List.flatten_cons, ← List.flatten_append, ← hf, List.getElem_cons_drop hlt,
      List.take_append_drop]
  rw [hsplit, List.drop_left' hoff, List.take_left' hn]

section
variable {protocolVersion timeOut sessionId : Int} {passwd : Str}

/-- The fields of an answer on the wire. -/
def answerFields (protocolVersion timeOut sessionId : Int) (passwd : Str) (readOnly : UInt8) :
    List Str :=
  [beInt 37, beInt protocolVersion, beInt timeOut, beLong sessionId, beInt 16, passwd, [readOnly]]

theorem connectAnswer_eq (hp : passwd.length = 16) (readOnly : UInt8) :
    connectAnswer protocolVersion timeOut sessionId passwd readOnly =
      (answerFields protocolVersion timeOut sessionId passwd readOnly).flatten := by
  simp [connectAnswer, frame, answerFields, ConnectResponse, record, Jute.bytes, bufferBytes, beInt,
    beLong, hp]

theorem length_connectAnswer (hp : passwd.length = 16) (readOnly : UInt8) :
    (connectAnswer protocolVersion timeOut sessionId passwd readOnly).length = 41 := by
  rw [connectAnswer_eq hp]
  simp [answerFields, beInt, beLong, hp]

/-- The fixed offsets find the fields of an answer. -/
theorem prime_response_of_connectAnswer (hv : isInt32 protocolVersion) (ht : isInt32 timeOut)
    (hs : isInt64 sessionId) (hp : passwd.length = 16) (readOnly : UInt8) :
    deserialize_prime_response (connectAnswer protocolVersion timeOut sessionId passwd readOnly) =
      { len := 37, protocolVersion, timeOut, sessionId, passwd_len := 16, passwd, readOnly } := by
  have h4 (d : Int) : (beInt d).length = 4 := by simp [beInt]
  have h8 : (beLong sessionId).length = 8 := by simp [beLong]
  have h37 : isInt32 37 := by constructor <;> omega
  have h16 : isInt32 16 := by constructor <;> omega
  rw [connectAnswer_eq hp]
  have field {f : Str} {n : Nat} (k off : Nat) :=
    @field_of_layout (answerFields protocolVersion timeOut sessionId passwd readOnly) f k off n
  have f0 := field 0 0 rfl rfl (h4 37)
  have f1 := field 1 4 rfl (by simp [answerFields, h4]) (h4 protocolVersion)
  have f2 := field 2 8 rfl (by simp [answerFields, h4]) (h4 timeOut)
  have f3 := field 3 12 rfl (by simp [answerFields, h4]) h8
  have f4 := field 4 20 rfl (by simp [answerFields, h4, h8]) (h4 16)
  have f5 := field 5 24 rfl (by simp [answerFields, h4, h8]) hp
  have f6 := field 6 40 rfl (by simp [answerFields, h4, h8, hp]) (n := 1) rfl
  unfold deserialize_prime_response
  rw [List.drop_zero] at f0
  rw [f0, f1, f2, f3, f4, f5, f6, zoo_htonll_eq_reverse h8, List.reverse_reverse,
    toInt_ofBe_beInt h37, toInt_ofBe_beInt hv, toInt_ofBe_beInt ht, toInt_ofBe_beInt h16,
    bmod_ofBe_beLong hs]
  rfl

end

/-! ## The pieces of the answer -/

/-- `primer_buffer` after `prime_connection`: 41 bytes of 0, at the offset 4 since
its length is known. -/
structure Primer where
  buffer : Str
  curr_offset : Nat
deriving DecidableEq, Repr

def Primer.start : Primer := { buffer := List.replicate 41 0, curr_offset := 4 }

/-- `recv_buffer` on the `primer_buffer` when `recv` gives `chunk`. A chunk one byte
short of the whole is counted as the whole, since an old server sends 40 bytes. -/
def recv_primer (p : Primer) (chunk : Str) : Primer :=
  let off := p.curr_offset - 4
  let rc := if chunk.length = 40 then chunk.length + 1 else chunk.length
  { buffer := p.buffer.take off ++ chunk ++ p.buffer.drop (off + chunk.length)
    curr_offset := p.curr_offset + rc }

/-- The reads of `check_events` until the answer counts as whole, and the chunks that
come after it. -/
def readAnswer : Primer → List Str → Option (Str × List Str)
  | _, [] => none
  | p, c :: cs =>
    let p' := recv_primer p c
    if p'.curr_offset = 41 + 4 then some (p'.buffer, cs) else readAnswer p' cs

/-- Pieces of any other length fill the buffer. -/
theorem readAnswer_of_pieces {chunks : List Str} (hne : ∀ c ∈ chunks, c ≠ [])
    (h40 : ∀ c ∈ chunks, c.length ≠ 40) (start : Str) (hsome : chunks ≠ [])
    (hlen : start.length + chunks.flatten.length = 41) :
    readAnswer { buffer := start ++ List.replicate (41 - start.length) 0,
                 curr_offset := 4 + start.length } chunks = some (start ++ chunks.flatten, []) := by
  induction chunks generalizing start with
  | nil => exact absurd rfl hsome
  | cons c cs ih =>
    rw [List.flatten_cons, List.length_append] at hlen
    have hc : c.length ≠ 40 := h40 c (by simp)
    have hstep : recv_primer { buffer := start ++ List.replicate (41 - start.length) 0,
                               curr_offset := 4 + start.length } c =
        { buffer := (start ++ c) ++ List.replicate (41 - (start ++ c).length) 0,
          curr_offset := 4 + (start ++ c).length } := by
      have hsub : 41 - start.length - c.length = 41 - (start.length + c.length) := by omega
      simp [recv_primer, hc, List.drop_append, Nat.add_assoc, hsub]
    simp only [readAnswer, hstep]
    cases cs with
    | nil =>
      have hfull : (start ++ c).length = 41 := by simpa using hlen
      simp [hfull]
    | cons d ds =>
      have hd : 0 < d.length := List.length_pos_of_ne_nil (hne d (by simp))
      have hmore : 4 + (start ++ c).length ≠ 41 + 4 := by
        simp only [List.flatten_cons, List.length_append] at hlen ⊢
        omega
      rw [if_neg hmore, ih (fun x hx => hne x (by simp [hx])) (fun x hx => h40 x (by simp [hx]))
        (start ++ c) (by simp) (by rw [List.length_append]; omega)]
      simp

theorem readAnswer_start {answer : Str} (hlen : answer.length = 41) {chunks : List Str}
    (hne : ∀ c ∈ chunks, c ≠ []) (hcut : chunks.flatten = answer)
    (h40 : ∀ c ∈ chunks, c.length ≠ 40) : readAnswer .start chunks = some (answer, []) := by
  have hsome : chunks ≠ [] := by
    rintro rfl
    simp [← hcut] at hlen
  have h := readAnswer_of_pieces hne h40 [] hsome (by simp [hcut, hlen])
  rwa [hcut, List.nil_append] at h

theorem flatten_eq_singleton {chunks : List Str} (hne : ∀ c ∈ chunks, c ≠ [])
    (hlen : chunks.flatten.length = 1) : ∃ d, chunks = [d] ∧ d.length = 1 := by
  match chunks with
  | [] => simp at hlen
  | [d] => exact ⟨d, rfl, by simpa using hlen⟩
  | d :: e :: rest =>
    have hd : 0 < d.length := List.length_pos_of_ne_nil (hne d (by simp))
    have he : 0 < e.length := List.length_pos_of_ne_nil (hne e (by simp))
    simp only [List.flatten_cons, List.length_append] at hlen
    omega

/-- The answer is read to its end, and no byte more or less, exactly when none of
its pieces has 40 bytes. A first piece of 40 leaves the last byte to the next
message, and 40 after a first piece of one go past the end. -/
theorem the_answer_is_read_whole_iff {answer : Str} (hlen : answer.length = 41)
    {chunks : List Str} (hne : ∀ c ∈ chunks, c ≠ []) (hcut : chunks.flatten = answer) :
    readAnswer .start chunks = some (answer, []) ↔ ∀ c ∈ chunks, c.length ≠ 40 := by
  constructor
  · intro h c hc h40
    obtain ⟨before, after, rfl⟩ := List.append_of_mem hc
    have htotal := congrArg List.length hcut
    simp only [List.flatten_append, List.flatten_cons, List.length_append, h40, hlen] at htotal
    by_cases hb : before = []
    · subst hb
      have ha : after ≠ [] := by
        rintro rfl
        simp at htotal
      simp [readAnswer, recv_primer, Primer.start, h40] at h
      exact ha h.2
    · have hpos : 0 < before.flatten.length := by
        obtain ⟨d, ds, rfl⟩ := List.exists_cons_of_ne_nil hb
        have := List.length_pos_of_ne_nil (hne d (by simp))
        simp only [List.flatten_cons, List.length_append]
        omega
      have hbefore : ∀ x ∈ before, x ≠ [] := fun x hx => hne x (by simp [hx])
      obtain ⟨d, rfl, hd⟩ := flatten_eq_singleton hbefore (by omega)
      have ha : after = [] := by
        by_contra hne'
        obtain ⟨e, es, rfl⟩ := List.exists_cons_of_ne_nil hne'
        have := List.length_pos_of_ne_nil (hne e (by simp))
        simp only [List.flatten_cons, List.length_append] at htotal
        omega
      subst ha
      simp [readAnswer, recv_primer, Primer.start, h40, hd] at h
  · exact readAnswer_start hlen hne hcut

theorem an_answer_in_a_piece_of_40_is_not_read_whole :
    readAnswer .start [List.replicate 40 7, [7]] ≠ some (List.replicate 41 7, []) := by
  have hlen : (List.replicate 41 (7 : UInt8)).length = 41 := by simp
  have hne : ∀ c ∈ ([List.replicate 40 7, [7]] : List Str), c ≠ [] := by simp
  rw [ne_eq, the_answer_is_read_whole_iff hlen hne (by simp)]
  simp

/-! ## The session -/

inductive LinkState
  | down
  | connected
  | readOnly
  | expired
deriving DecidableEq, Repr

/-- What the handshake reads and writes of a `zhandle_t`. -/
structure Link where
  state : LinkState
  client_id : Int
  passwd : Str
  recv_timeout : Int
  last_zxid : Int
  seen_rw_server_before : Bool
  allow_read_only : UInt8
deriving DecidableEq, Repr

/-- The id that `prime_connection` sends and `check_events` compares. -/
def Link.oldid (l : Link) : Int := if l.seen_rw_server_before then l.client_id else 0

/-- The request of `prime_connection`. -/
def prime_connection (l : Link) : ConnectReq :=
  { protocolVersion := 0, lastZxidSeen := l.last_zxid, timeOut := l.recv_timeout,
    sessionId := l.oldid, passwd := l.passwd, readOnly := l.allow_read_only }

/-- `check_events` with a whole answer. -/
def Link.answered (l : Link) (r : PrimeStruct) : Link :=
  let seen_rw_server_before := l.seen_rw_server_before || r.readOnly == 0
  if l.oldid ≠ 0 ∧ l.oldid ≠ r.sessionId then { l with seen_rw_server_before, state := .expired }
  else
    { l with seen_rw_server_before, recv_timeout := r.timeOut, client_id := r.sessionId,
             passwd := r.passwd, state := if r.readOnly == 0 then .connected else .readOnly }

inductive LinkAct
  /-- A whole answer stands in the buffer of the handshake. -/
  | answer (buffer : Str)
  /-- The connection goes. -/
  | lose
  /-- A reply with a later `zxid`. -/
  | reply (zxid : Int)
deriving DecidableEq, Repr

def Link.step (l : Link) : LinkAct → Option Link
  | .answer buffer =>
    if l.state = .down then some (l.answered (deserialize_prime_response buffer)) else none
  | .lose => if l.state = .expired then none else some { l with state := .down }
  | .reply zxid =>
    if l.state = .expired ∨ l.state = .down then none
    else some { l with last_zxid := if 0 < zxid then zxid else l.last_zxid }

/-- `zookeeper_init`, with or without the id of an old session. -/
def links : System Link LinkAct :=
  { start := fun l => l.state = .down ∧ l.seen_rw_server_before = decide (l.client_id ≠ 0)
    step := Link.step }

/-- A handle with a session of its own, or one that lost it for good. -/
def Link.Keeps (id : Int) (l : Link) : Prop :=
  l.state ≠ .expired → l.seen_rw_server_before = true ∧ l.client_id = id

theorem Link.keeps_step {id : Int} (hid : id ≠ 0) {l l' : Link} {a : LinkAct} (h : l.Keeps id)
    (hs : l.step a = some l') : l'.Keeps id := by
  cases a with
  | answer buffer =>
    simp only [Link.step] at hs
    split at hs
    · rename_i hdown
      cases hs
      obtain ⟨hseen, hc⟩ := h (by simp [hdown])
      have hold : l.oldid = id := by simp [Link.oldid, hseen, hc]
      intro hne
      unfold Link.answered at hne ⊢
      by_cases hsame : id = (deserialize_prime_response buffer).sessionId
      · simp [hold, ← hsame, hseen]
      · simp [hold, hid, hsame] at hne
    · cases hs
  | lose =>
    simp only [Link.step] at hs
    split at hs
    · cases hs
    · rename_i hne
      cases hs
      exact fun _ => h hne
  | reply zxid =>
    simp only [Link.step] at hs
    split at hs
    · cases hs
    · cases hs
      exact h

/-- A handle is only connected after the answer of a server that also writes. -/
theorem Link.seen_of_connected {l : Link} (h : links.Reach l) :
    l.state = .connected → l.seen_rw_server_before = true := by
  refine System.Reach.invariant
    (P := fun l => l.state = .connected → l.seen_rw_server_before = true) ?_ ?_ h
  · rintro l ⟨hdown, -⟩ hc
    simp [hdown] at hc
  · intro l a l' ih hs
    cases a with
    | answer buffer =>
      simp only [links, Link.step] at hs
      split at hs
      · cases hs
        unfold Link.answered
        dsimp only
        split
        · simp
        · split <;> simp_all
      · cases hs
    | lose =>
      simp only [links, Link.step] at hs
      split at hs
      · cases hs
      · cases hs
        simp
    | reply zxid =>
      simp only [links, Link.step] at hs
      split at hs
      · cases hs
      · cases hs
        exact ih

/-- A handle that has a session keeps its id over every loss and every handshake, and
asks for it each time, until the day on which it is expired. -/
theorem a_handle_keeps_its_session {l l' : Link} {acts : List LinkAct} (h : links.Reach l)
    (hl : l.state = .connected) (hid : l.client_id ≠ 0) (hrun : links.run l acts = some l')
    (halive : l'.state ≠ .expired) :
    l'.client_id = l.client_id ∧ (prime_connection l').sessionId = l.client_id := by
  have h0 : l.Keeps l.client_id := fun _ => ⟨Link.seen_of_connected h hl, rfl⟩
  obtain ⟨h1, h2⟩ :=
    System.run_keeps (M := links) (fun _ _ _ _ hk hs => Link.keeps_step hid hk hs)
      (fun _ _ => trivial) h0 hrun halive
  exact ⟨h2, by simp [prime_connection, Link.oldid, h1, h2]⟩

/-- The answer of a server that names the session 5. -/
def answerOf5 : Str := connectAnswer 0 8000 5 (List.replicate 16 7) 0

def Link.new : Link :=
  { state := .down, client_id := 0, passwd := List.replicate 16 0, recv_timeout := 10000,
    last_zxid := 0, seen_rw_server_before := false, allow_read_only := 0 }

/-- After the first answer. -/
def Link.with5 : Link :=
  { Link.new with state := .connected, client_id := 5, passwd := List.replicate 16 7,
                  recv_timeout := 8000, seen_rw_server_before := true }

theorem a_handle_comes_back_with_session_5 : links.Reach Link.with5 ∧
    links.run Link.with5 [.reply 9, .lose, .answer answerOf5] =
      some { Link.with5 with last_zxid := 9 } ∧
    (prime_connection { Link.with5 with last_zxid := 9 }).sessionId = 5 := by
  have hfirst : links.run Link.new [.answer answerOf5] = some Link.with5 := by decide
  have hreach : links.Reach Link.with5 := System.Reach.run (.start ⟨rfl, rfl⟩) hfirst
  have hrun : links.run Link.with5 [.reply 9, .lose, .answer answerOf5] =
      some { Link.with5 with last_zxid := 9 } := by decide
  exact ⟨hreach, hrun, (a_handle_keeps_its_session hreach rfl (by decide) hrun (by decide)).2⟩

/-! ## The handle of the deployment -/

/-- The abstract handle that a link stands for. -/
def Link.Refines (l : Link) (h : Handle) : Prop :=
  match h.client_id with
  | none => l.seen_rw_server_before = false
  | some s => l.seen_rw_server_before = true ∧ l.client_id = s ∧ s ≠ 0

/-- The bytes of a server that names the session `s` do to the link what the handshake
does to the handle. -/
theorem the_handshake_refines {l : Link} {h : Handle} (hr : l.Refines h) {s : Session}
    (hs : (s : Int) < 2 ^ 63) (hs0 : h.client_id = none → s ≠ 0) {protocolVersion timeOut : Int}
    (hv : isInt32 protocolVersion) (ht : isInt32 timeOut) {passwd : Str}
    (hp : passwd.length = 16) {chunks : List Str} (hne : ∀ c ∈ chunks, c ≠ [])
    (h40 : ∀ c ∈ chunks, c.length ≠ 40)
    (hcut : chunks.flatten = connectAnswer protocolVersion timeOut s passwd 0) :
    ∃ buffer, readAnswer .start chunks = some (buffer, []) ∧
      let l' := l.answered (deserialize_prime_response buffer)
      if h.client_id = none ∨ h.client_id = some s then
        l'.Refines (h.established s timeOut) ∧ l'.state = .connected ∧ l'.recv_timeout = timeOut
      else l'.Refines h.expire ∧ l'.state = .expired := by
  have hlen := @length_connectAnswer protocolVersion timeOut s passwd hp 0
  have hread := readAnswer_start hlen hne hcut h40
  have hs64 : isInt64 s := ⟨by omega, hs⟩
  have hprime := prime_response_of_connectAnswer hv ht hs64 hp 0
  refine ⟨_, hread, ?_⟩
  rw [hprime]
  unfold Link.Refines at hr ⊢
  cases hc : h.client_id with
  | none =>
    rw [hc] at hr
    have hold : l.oldid = 0 := by simp [Link.oldid, hr]
    simp [Link.answered, hold, Handle.established, hs0 hc]
  | some t =>
    rw [hc] at hr
    obtain ⟨hseen, hid, ht0⟩ := hr
    have hold : l.oldid = t := by simp [Link.oldid, hseen, hid]
    by_cases hst : t = s
    · subst hst
      simp [Link.answered, hold, hseen, Handle.established, ht0]
    · have hne : ¬ (t : Int) = s := fun he => hst (Int.ofNat_inj.mp he)
      simp [Link.answered, hold, hseen, hst, hne, ht0, hc, hid]

/-- The first answer to a new handle, in two pieces. -/
theorem the_first_handshake_of_a_handle :
    ∃ buffer, readAnswer .start [answerOf5.take 3, answerOf5.drop 3] = some (buffer, []) ∧
      (Link.new.answered (deserialize_prime_response buffer)).Refines
        ((zookeeper_init 10000).established 5 8000) := by
  have hcut : [answerOf5.take 3, answerOf5.drop 3].flatten =
      connectAnswer 0 8000 (5 : Session) (List.replicate 16 7) 0 := by decide
  obtain ⟨buffer, hread, hlink⟩ := the_handshake_refines (l := Link.new) (h := zookeeper_init 10000)
    rfl (by decide) (by decide) ⟨by decide, by decide⟩ ⟨by decide, by decide⟩ (by simp)
    (by decide) (by decide) hcut
  have hnew : (zookeeper_init 10000).client_id = none := rfl
  simp only [hnew, true_or, if_true] at hlink
  exact ⟨buffer, hread, hlink.1⟩

end ZookZhubei
