-- The credentials of a handle. `zoo_add_auth` appends one to a list and sends
-- the last one of the list, and the I/O thread sends them all when a session is
-- made. The threads of the program and the I/O thread interleave: the list has
-- a lock, and the state of the handle has none.
import Mathlib.Data.List.Nodup
import ZookZhubei.Completions
import ZookZhubei.Jute

namespace ZookZhubei

open Runs

/-! ## The model -/

/-- `auth_info`. `id` counts the entries and is not in the source, and `completion` says
that the pointer is not null. The `state` of an entry is never read. -/
structure AuthInfo where
  id : Nat
  scheme : Str
  auth : Str
  completion : Bool
deriving DecidableEq, Repr

def ZOO_SETAUTH_OP : Int := 100

/-- What `send_info_packet` puts in `to_send`. The type is ignored by the server. -/
def send_info_packet (a : AuthInfo) : Str :=
  RequestHeader.bytes (AUTH_XID, ZOO_SETAUTH_OP, ()) ++
    AuthPacket.bytes ((0 : Int), a.scheme, some a.auth, ())

/-- The entries whose completion is still to be called. -/
def pendingAuths (auths : List AuthInfo) : List Nat :=
  (auths.filter AuthInfo.completion).map AuthInfo.id

/-- `get_auth_completions` leaves no completion behind. -/
def get_auth_completions (auths : List AuthInfo) : List Nat × List AuthInfo :=
  (pendingAuths auths, auths.map fun a => { a with completion := false })

/-- The I/O thread: between two events, between the new state of a handshake and
`send_auth_info`, and on its way to `handle_error`. -/
inductive AuthIo
  | idle
  | entering
  | failing (rc : Int)
deriving DecidableEq, Repr

/-- `calls` counts the calls of `zoo_add_auth` that passed their checks. An adder has
appended its entry and not yet looked at the state, and a sender has seen a connection.
`asked` are the entries that came with a completion, `sent` the packets that were put in
`to_send` since the socket was opened, and `completed` each call of a completion. -/
structure Auths where
  state : ZooState
  fd : Bool
  io : AuthIo
  calls : Nat
  adders : List Nat
  senders : List Nat
  auths : List AuthInfo
  asked : List Nat
  sent : List Str
  completed : List (Nat × Int)
deriving DecidableEq, Repr

/-- What `free_completions` and `auth_completion_func` do with the completions. -/
def Auths.complete (s : Auths) (rc : Int) : Auths :=
  { s with auths := (get_auth_completions s.auths).2
           completed := s.completed ++ (get_auth_completions s.auths).1.map fun id => (id, rc) }

/-- `cleanup`. -/
def Auths.cleanup (s : Auths) (rc : Int) : Auths :=
  { s.complete rc with state := if is_unrecoverable s.state then s.state else .closed
                       fd := false, io := .idle }

inductive AuthAct
  /-- The checks of `zoo_add_auth`. -/
  | call
  /-- Its critical section. -/
  | add (scheme auth : Str) (completion : Bool)
  /-- Its look at the state. -/
  | look (k : Nat)
  /-- `send_last_auth_info`. -/
  | send (k : Nat)
  /-- `zookeeper_interest` opens a socket. -/
  | socket
  /-- `prime_connection`. -/
  | prime
  /-- The answer to the handshake, up to `send_set_watches`. -/
  | establish
  /-- The answer of a server that does not know the session. -/
  | expire
  /-- `send_auth_info`. -/
  | sendAll
  /-- `auth_completion_func`, for a message with `AUTH_XID`. -/
  | reply (rc : Int)
  /-- `handle_error`. -/
  | lose (rc : Int)
  /-- `update_addrs` closes the socket, out of whatever thread. -/
  | move
  /-- `zookeeper_close` calls `free_completions`. -/
  | free
deriving DecidableEq, Repr

/-- The states in which a new credential is sent at once. -/
def isOpen (state : ZooState) : Bool := state == .connected || state == .associating

def Auths.step (s : Auths) : AuthAct → Option Auths
  | .call =>
    if is_unrecoverable s.state = false ∧ s.state ≠ .closed then some { s with calls := s.calls + 1 }
    else none
  | .add scheme auth completion =>
    if 0 < s.calls then
      let id := s.auths.length
      some { s with calls := s.calls - 1, auths := s.auths ++ [{ id, scheme, auth, completion }],
                    adders := s.adders ++ [id],
                    asked := if completion then s.asked ++ [id] else s.asked }
    else none
  | .look k =>
    match s.adders[k]? with
    | none => none
    | some id =>
      some { s with adders := s.adders.eraseIdx k,
                    senders := if isOpen s.state then s.senders ++ [id] else s.senders }
  | .send k =>
    -- The last entry may have become another one.
    if k < s.senders.length then
      some { s with senders := s.senders.eraseIdx k,
                    sent := (s.auths.getLast?.map send_info_packet).toList ++ s.sent }
    else none
  | .socket =>
    if s.io = .idle ∧ s.fd = false ∧ is_unrecoverable s.state = false then
      some { s with state := .connecting, fd := true, sent := [] }
    else none
  | .prime =>
    if s.io = .idle ∧ s.state = .connecting then some { s with state := .associating } else none
  | .establish =>
    if s.io = .idle ∧ s.state = .associating then some { s with state := .connected, io := .entering }
    else none
  | .expire =>
    if s.io = .idle ∧ s.state = .associating then
      some { s with state := .expired, io := .failing ZSESSIONEXPIRED }
    else none
  -- Each one is pushed to the front.
  | .sendAll =>
    if s.io = .entering then
      some { s with io := .idle, sent := (s.auths.map send_info_packet).reverse ++ s.sent }
    else none
  -- The log message reads the first entry, and there has to be one.
  | .reply rc =>
    if s.io = .idle ∧ is_unrecoverable s.state = false ∧ s.auths ≠ [] then
      if rc = 0 then some (s.complete rc)
      else some { s.complete rc with state := .authFailed, io := .failing ZAUTHFAILED }
    else none
  | .lose rc => if s.io = .idle ∨ s.io = .failing rc then some (s.cleanup rc) else none
  | .move => if s.fd then some { s with state := .notConnected, fd := false } else none
  | .free => some (s.complete ZCLOSING)

def credentials : System Auths AuthAct :=
  { start := fun s =>
      s.state = .notConnected ∧ s.fd = false ∧ s.io = .idle ∧ s.calls = 0 ∧ s.adders = [] ∧
      s.senders = [] ∧ s.auths = [] ∧ s.asked = [] ∧ s.sent = [] ∧ s.completed = []
    step := Auths.step }

/-- What a step can be, with what it found. -/
inductive AuthTrans (s : Auths) : AuthAct → Auths → Prop
  | call : AuthTrans s .call { s with calls := s.calls + 1 }
  | add (scheme auth : Str) (completion : Bool) : AuthTrans s (.add scheme auth completion)
      { s with calls := s.calls - 1,
               auths := s.auths ++ [{ id := s.auths.length, scheme, auth, completion }],
               adders := s.adders ++ [s.auths.length],
               asked := if completion then s.asked ++ [s.auths.length] else s.asked }
  | look {k id : Nat} : s.adders[k]? = some id → AuthTrans s (.look k)
      { s with adders := s.adders.eraseIdx k,
               senders := if isOpen s.state then s.senders ++ [id] else s.senders }
  | send {k : Nat} : k < s.senders.length → AuthTrans s (.send k)
      { s with senders := s.senders.eraseIdx k,
               sent := (s.auths.getLast?.map send_info_packet).toList ++ s.sent }
  | socket : AuthTrans s .socket { s with state := .connecting, fd := true, sent := [] }
  | prime : AuthTrans s .prime { s with state := .associating }
  | establish : AuthTrans s .establish { s with state := .connected, io := .entering }
  | expire : AuthTrans s .expire { s with state := .expired, io := .failing ZSESSIONEXPIRED }
  | sendAll : AuthTrans s .sendAll
      { s with io := .idle, sent := (s.auths.map send_info_packet).reverse ++ s.sent }
  | taken : s.io = .idle → AuthTrans s (.reply 0) (s.complete 0)
  | refused {rc : Int} : rc ≠ 0 → AuthTrans s (.reply rc)
      { s.complete rc with state := .authFailed, io := .failing ZAUTHFAILED }
  | lose (rc : Int) : AuthTrans s (.lose rc) (s.cleanup rc)
  | move : AuthTrans s .move { s with state := .notConnected, fd := false }
  | free : AuthTrans s .free (s.complete ZCLOSING)

theorem authTrans_of_step {s s' : Auths} {a : AuthAct} (h : s.step a = some s') :
    AuthTrans s a s' := by
  cases a with
  | look k =>
    simp only [Auths.step] at h
    split at h
    · cases h
    · rename_i id hk
      cases h
      exact .look hk
  | reply rc =>
    simp only [Auths.step] at h
    split at h
    · rename_i hio
      split at h
      · rename_i hrc
        cases h
        subst hrc
        exact .taken hio.1
      · rename_i hrc
        cases h
        exact .refused hrc
    · cases h
  | free =>
    cases h
    exact .free
  | call | add _ _ _ | send k | socket | prime | establish | expire | sendAll | lose rc | move =>
    simp only [Auths.step, Option.ite_none_right_eq_some, Option.some.injEq] at h
    obtain ⟨hg, rfl⟩ := h
    constructor <;> exact hg

/-! ## Each completion is called once -/

/-- The entries are numbered. Those that came with a completion are all those whose
completion was called, and those where it still waits. -/
structure Auths.Sound (s : Auths) : Prop where
  ids : s.auths.map AuthInfo.id = List.range s.auths.length
  once : (s.completed.map Prod.fst ++ pendingAuths s.auths).Perm s.asked
  known : ∀ id ∈ s.asked, id < s.auths.length
  nodup : s.asked.Nodup

theorem pendingAuths_complete (s : Auths) (rc : Int) : pendingAuths (s.complete rc).auths = [] := by
  simp [pendingAuths, Auths.complete, get_auth_completions]

theorem Auths.sound_complete {s : Auths} (h : s.Sound) (rc : Int) : (s.complete rc).Sound := by
  have hlen : (s.complete rc).auths.length = s.auths.length := List.length_map _
  refine ⟨?_, ?_, ?_, h.nodup⟩
  · rw [hlen, ← h.ids]
    simp [Auths.complete, get_auth_completions, Function.comp_def]
  · rw [pendingAuths_complete, List.append_nil]
    unfold Auths.complete get_auth_completions
    simp only [List.map_append, List.map_map, Function.comp_def, List.map_id']
    exact h.once
  · rw [hlen]
    exact h.known

theorem pendingAuths_append (auths : List AuthInfo) (a : AuthInfo) :
    pendingAuths (auths ++ [a]) = pendingAuths auths ++ if a.completion then [a.id] else [] := by
  unfold pendingAuths
  cases h : a.completion <;> simp [List.filter_append, h]

theorem ids_append {auths : List AuthInfo} {a : AuthInfo}
    (h : auths.map AuthInfo.id = List.range auths.length) (ha : a.id = auths.length) :
    (auths ++ [a]).map AuthInfo.id = List.range (auths ++ [a]).length := by
  rw [List.map_append, h, List.length_append, List.length_singleton, List.range_succ, ← ha]
  rfl

theorem Auths.sound_trans {s s' : Auths} {a : AuthAct} (h : s.Sound) (ht : AuthTrans s a s') :
    s'.Sound := by
  cases ht with
  | add scheme auth completion =>
    obtain ⟨ids, once, known, nodup⟩ := h
    have hnew : s.auths.length ∉ s.asked := fun hm => Nat.lt_irrefl _ (known _ hm)
    cases completion with
    | false =>
      refine ⟨ids_append ids rfl, ?_, fun id hm => ?_, nodup⟩
      · rw [pendingAuths_append]
        simpa using once
      · have hlt := known id hm
        simp only [List.length_append, List.length_singleton]
        omega
    | true =>
      refine ⟨ids_append ids rfl, ?_, fun id hm => ?_, ?_⟩
      · rw [pendingAuths_append, ← List.append_assoc]
        exact once.append_right _
      · simp only [List.length_append, List.length_singleton]
        rcases List.mem_append.mp hm with hm | hm
        · have hlt := known id hm
          omega
        · rw [List.mem_singleton.mp hm]
          omega
      · have hc := List.Nodup.concat hnew nodup
        rwa [List.concat_eq_append] at hc
  | taken _ => exact sound_complete h 0
  | @refused rc _ =>
    obtain ⟨ids, once, known, nodup⟩ := sound_complete h rc
    exact ⟨ids, once, known, nodup⟩
  | lose rc =>
    obtain ⟨ids, once, known, nodup⟩ := sound_complete h rc
    exact ⟨ids, once, known, nodup⟩
  | free => exact sound_complete h ZCLOSING
  | call | look _ | send _ | socket | prime | establish | expire | sendAll | move =>
    exact ⟨h.ids, h.once, h.known, h.nodup⟩

theorem Auths.sound_of_reach {s : Auths} (h : credentials.Reach s) : s.Sound := by
  refine System.Reach.invariant (P := Auths.Sound) ?_ ?_ h
  · rintro s ⟨-, -, -, -, -, -, hauths, hasked, -, hcompleted⟩
    refine ⟨?_, ?_, ?_, ?_⟩ <;> simp [hauths, hasked, hcompleted, pendingAuths]
  · exact fun _ _ _ hi hs => Auths.sound_trans hi (authTrans_of_step hs)

/-! ## Each server gets each credential -/

/-- No call appends while another one is between its entry and its packet. -/
def alone (s : Auths) : AuthAct → Prop
  | .add _ _ _ => s.adders = [] ∧ s.senders = []
  | _ => True

/-- A call on its way is the one of the last entry. After a handshake each credential is
on its way to the server, or its call is about to put it there. -/
structure Auths.Served (s : Auths) : Prop where
  last : ∀ id, id ∈ s.adders ∨ id ∈ s.senders → s.auths.getLast?.map AuthInfo.id = some id
  sent : s.state = .connected → s.io = .idle → ∀ a ∈ s.auths,
    send_info_packet a ∈ s.sent ∨ a.id ∈ s.adders ∨ a.id ∈ s.senders

theorem getLast_complete (s : Auths) (rc : Int) :
    (s.complete rc).auths.getLast?.map AuthInfo.id = s.auths.getLast?.map AuthInfo.id := by
  simp [Auths.complete, get_auth_completions, List.getLast?_map, Function.comp_def]

/-- A packet does not depend on the completion. -/
theorem Auths.served_complete {s : Auths} (h : s.Served) (rc : Int) : (s.complete rc).Served := by
  refine ⟨fun id hid => (getLast_complete s rc).trans (h.last id hid), fun hst hio a ha => ?_⟩
  obtain ⟨b, hb, rfl⟩ := List.mem_map.mp ha
  exact h.sent hst hio b hb

/-- Two entries with one number are one entry. -/
theorem eq_of_id {s : Auths} (h : s.Sound) {a b : AuthInfo} (ha : a ∈ s.auths) (hb : b ∈ s.auths)
    (hid : a.id = b.id) : a = b := by
  have hnodup : (s.auths.map AuthInfo.id).Nodup := h.ids ▸ List.nodup_range
  exact List.inj_on_of_nodup_map hnodup ha hb hid

theorem Auths.served_trans {s s' : Auths} {a : AuthAct} (hs : s.Sound) (h : s.Served) (hg : alone s a)
    (ht : AuthTrans s a s') : s'.Served := by
  cases ht with
  | call => exact ⟨h.last, h.sent⟩
  | add scheme auth completion =>
    obtain ⟨hadd, hsend⟩ := hg
    refine ⟨fun id hid => ?_, fun hst hio b hb => ?_⟩
    · simp only [hadd, hsend, List.nil_append, List.mem_singleton, List.not_mem_nil, or_false] at hid
      simp [hid]
    · rcases List.mem_append.mp hb with hb | hb
      · rcases h.sent hst hio b hb with h1 | h1 | h1
        · exact .inl h1
        · simp [hadd] at h1
        · simp [hsend] at h1
      · rw [List.mem_singleton.mp hb]
        exact .inr (.inl (by simp))
  | @look k id hk =>
    have hid : id ∈ s.adders := List.mem_of_getElem? hk
    refine ⟨fun id' hid' => ?_, fun hst hio b hb => ?_⟩
    · rcases hid' with hid' | hid'
      · exact h.last id' (.inl (List.mem_of_mem_eraseIdx hid'))
      · split at hid'
        · rcases List.mem_append.mp hid' with hid' | hid'
          · exact h.last id' (.inr hid')
          · rw [List.mem_singleton.mp hid']
            exact h.last id (.inl hid)
        · exact h.last id' (.inr hid')
    · have hopen : isOpen s.state = true := by
        rw [show s.state = .connected from hst]
        rfl
      rcases h.sent hst hio b hb with h1 | h1 | h1
      · exact .inl h1
      · -- there is only this one adder
        have hb' := (h.last _ (.inl h1)).symm.trans (h.last _ (.inl hid))
        refine .inr (.inr ?_)
        rw [if_pos hopen, Option.some.inj hb']
        exact List.mem_append_right _ (List.mem_singleton_self id)
      · refine .inr (.inr ?_)
        rw [if_pos hopen]
        exact List.mem_append_left _ h1
  | @send k hk =>
    refine ⟨fun id hid => h.last id (hid.imp_right List.mem_of_mem_eraseIdx), fun hst hio b hb => ?_⟩
    rcases h.sent hst hio b hb with h1 | h1 | h1
    · exact .inl (List.mem_append_right _ h1)
    · exact .inr (.inl h1)
    · -- the last entry is the one of this call
      obtain ⟨c, hc, hid⟩ := Option.map_eq_some_iff.mp (h.last _ (.inr h1))
      have hcb := eq_of_id hs (List.mem_of_getLast? hc) hb hid
      refine .inl (List.mem_append_left _ ?_)
      simp [hc, hcb]
  | socket => exact ⟨h.last, fun hst => by cases hst⟩
  | prime => exact ⟨h.last, fun hst => by cases hst⟩
  | establish => exact ⟨h.last, fun _ hio => by cases hio⟩
  | expire => exact ⟨h.last, fun hst => by cases hst⟩
  | sendAll =>
    refine ⟨h.last, fun _ _ b hb => .inl ?_⟩
    exact List.mem_append_left _ (List.mem_reverse.mpr (List.mem_map_of_mem hb))
  | taken _ => exact served_complete h 0
  | @refused rc _ => exact ⟨(served_complete h rc).last, fun hst => by cases hst⟩
  | lose rc =>
    refine ⟨(served_complete h rc).last, fun hst => ?_⟩
    unfold Auths.cleanup at hst
    split at hst
    · rename_i hu
      rw [show s.state = .connected from hst] at hu
      cases hu
    · cases hst
  | move => exact ⟨h.last, fun hst => by cases hst⟩
  | free => exact served_complete h ZCLOSING

theorem Auths.served_of_reach {s : Auths} (h : credentials.ReachBy alone s) : s.Served := by
  refine System.ReachBy.invariant_with (P := Auths.Served) (Q := Auths.Sound)
    (fun s hs => Auths.sound_of_reach hs.reach) ?_ ?_ h
  · rintro s ⟨hst, -, -, -, hadd, hsend, -, -, -, -⟩
    refine ⟨?_, ?_⟩
    · simp [hadd, hsend]
    · simp [hst]
  · exact fun _ _ _ hq hp hg hs => Auths.served_trans hq hp hg (authTrans_of_step hs)

/-- Whatever the threads, the server and the connection do, each completion that came with
a credential was called one time or still waits, and never both. When no two calls of
`zoo_add_auth` overlap and none is under way, each credential that was ever added is on its
way to the server of each session. -/
theorem every_credential_is_sent_and_completed_once {s : Auths} (h : credentials.Reach s) :
    (∀ id ∈ s.asked, (s.completed.map Prod.fst).count id + (pendingAuths s.auths).count id = 1) ∧
      (credentials.ReachBy alone s → s.state = .connected → s.io = .idle → s.adders = [] →
        s.senders = [] → ∀ a ∈ s.auths, send_info_packet a ∈ s.sent) := by
  refine ⟨fun id hid => ?_, fun hby hst hio hadd hsend a ha => ?_⟩
  · obtain ⟨-, once, -, nodup⟩ := Auths.sound_of_reach h
    rw [← List.count_append, once.count_eq]
    exact List.count_eq_one_of_mem nodup hid
  · rcases (Auths.served_of_reach hby).sent hst hio a ha with h1 | h1 | h1
    · exact h1
    · simp [hadd] at h1
    · simp [hsend] at h1

instance (s : Auths) : (a : AuthAct) → Decidable (alone s a)
  | .add _ _ _ => inferInstanceAs (Decidable (s.adders = [] ∧ s.senders = []))
  | .call | .look _ | .send _ | .socket | .prime | .establish | .expire | .sendAll | .reply _ | .lose _
  | .move | .free => .isTrue trivial

/-- A handle right after `zookeeper_init`. -/
def Auths.opened : Auths :=
  { state := .notConnected, fd := false, io := .idle, calls := 0, adders := [], senders := [],
    auths := [], asked := [], sent := [], completed := [] }

theorem Auths.start_opened : credentials.start .opened :=
  ⟨rfl, rfl, rfl, rfl, rfl, rfl, rfl, rfl, rfl, rfl⟩

/-- One credential before the first session, and another one while the handle makes its
second one. -/
theorem two_credentials_are_sent_and_completed_once :
    ∃ s, credentials.ReachBy alone s ∧ s.asked = [0, 1] ∧
      (∀ id ∈ s.asked, (s.completed.map Prod.fst).count id + (pendingAuths s.auths).count id = 1) ∧
      ∀ a ∈ s.auths, send_info_packet a ∈ s.sent := by
  obtain ⟨s, hs, ht⟩ := System.ReachBy.of_run (M := credentials) (G := alone) (s := .opened)
    ([.call, .add (str "digest") (str "a:b") true, .look 0, .socket, .prime, .establish, .sendAll,
      .reply 0, .lose ZCONNECTIONLOSS, .socket, .prime, .call, .add (str "digest") (str "c:d") true,
      .look 0, .send 0, .establish, .sendAll])
    (fun s => s.asked == [0, 1] && s.state == .connected && s.io == .idle && s.adders == [] &&
      s.senders == []) (.start Auths.start_opened) (by decide)
  simp only [Bool.and_eq_true, beq_iff_eq] at ht
  obtain ⟨⟨⟨⟨hasked, hst⟩, hio⟩, hadd⟩, hsend⟩ := ht
  obtain ⟨honce, hall⟩ := every_credential_is_sent_and_completed_once hs.reach
  exact ⟨s, hs, hasked, honce, hall hs hst hio hadd hsend⟩

/-- Two calls overlap: both send the second credential, and the first one is said to be
taken. -/
example : ∃ s, credentials.Reach s ∧ s.completed = [(0, 0), (1, 0)] ∧ s.adders = [] ∧ s.senders = [] ∧
    ∃ a ∈ s.auths, send_info_packet a ∉ s.sent := by
  obtain ⟨s, hs, ht⟩ := System.Reach.of_run (M := credentials) (s := .opened)
    ([.socket, .prime, .establish, .sendAll, .call, .call, .add (str "digest") (str "a:b") true,
      .add (str "digest") (str "c:d") true, .look 0, .look 0, .send 0, .send 0, .reply 0])
    (fun s => s.completed == [(0, 0), (1, 0)] && s.adders == [] && s.senders == [] &&
      s.auths.any fun a => !s.sent.contains (send_info_packet a)) Auths.start_opened (by decide)
  simp only [Bool.and_eq_true, beq_iff_eq, List.any_eq_true, Bool.not_eq_true',
    List.contains_eq_mem, decide_eq_false_iff_not] at ht
  exact ⟨s, hs, ht.1.1.1, ht.1.1.2, ht.1.2, ht.2⟩

end ZookZhubei
