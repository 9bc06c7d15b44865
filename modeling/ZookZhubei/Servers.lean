-- Which server a handle connects to: `update_addrs` takes a new list and says whether to
-- move, `zoo_cycle_next_server` gives the next one to try, and `handle_error` goes on
-- after one that failed.
import Mathlib.Data.Rat.Defs
import Mathlib.Algebra.Order.Field.Rat
import Mathlib.Tactic.FieldSimp
import Mathlib.Tactic.Ring
import ZookZhubei.Addrvec
import ZookZhubei.Runs

namespace ZookZhubei

open Runs

open scoped List

/-! ## The model -/

/-- What a handle knows of its servers. `fd` says that a socket is open. The doubles are
rational numbers here. -/
structure Pool where
  addrs : AddrVec
  addrs_old : AddrVec
  addrs_new : AddrVec
  addr_cur : Addr
  reconfig : Bool
  pOld : ℚ
  pNew : ℚ
  delay : Bool
  fd : Bool
deriving DecidableEq, Repr

/-- The first part of `update_addrs`: the servers of the new list that were known and
those that were not. -/
def Pool.divide (zh : Pool) (resolved : List Addr) : Pool :=
  { zh with reconfig := true
            addrs_old := .of (resolved.filter fun addr => addrvec_contains zh.addrs.data addr)
            addrs_new := .of (resolved.filter fun addr => !addrvec_contains zh.addrs.data addr) }

/-- The chance to leave a server for a list that grew from `count` to `total`. -/
def moveChance (count total : Nat) : ℚ := 1 - count / total

/-- The second part: whether to move, and to which of the two kinds. -/
def Pool.weigh (zh : Pool) (found_current : Bool) (drand48 : ℚ) : Pool :=
  let count := zh.addrs.data.length
  let num_old := zh.addrs_old.data.length
  let num_new := zh.addrs_new.data.length
  if count < num_old + num_new then
    if found_current then
      if drand48 ≤ moveChance count (num_old + num_new) then { zh with pNew := 1, pOld := 0 }
      else { zh with reconfig := false }
    else { zh with pNew := 1, pOld := 0 }
  else if found_current then { zh with reconfig := false }
  else
    let pOld : ℚ := (num_old * (count - (num_old + num_new)) : Nat) /
      ((num_old + num_new) * (count - num_old) : Nat)
    { zh with pOld, pNew := 1 - pOld }

/-- The last part: the list takes its place, and a handle that has to move closes its
socket. -/
def Pool.replace (zh : Pool) (resolved : List Addr) : Pool :=
  { zh with addrs := .of resolved, fd := zh.fd && !zh.reconfig }

/-- `update_addrs` from the resolved list on. -/
def update_addrs (zh : Pool) (resolved : List Addr) (drand48 : ℚ) : Pool :=
  if addrvec_eq zh.addrs.data resolved then zh
  else
    let found_current := addrvec_contains resolved zh.addr_cur
    ((zh.divide resolved).weigh found_current drand48).replace resolved

def get_next_server_in_reconfig (zh : Pool) (drand48 : ℚ) : Option Pool :=
  let take_new := decide (drand48 ≤ zh.pNew)
  if addrvec_hasnext zh.addrs_new && (take_new || !addrvec_hasnext zh.addrs_old) then
    let r := addrvec_next zh.addrs_new
    some { zh with addrs_new := r.1, addr_cur := r.2 }
  else if addrvec_hasnext zh.addrs_old then
    let r := addrvec_next zh.addrs_old
    some { zh with addrs_old := r.1, addr_cur := r.2 }
  else none

/-- The servers in turn. -/
def Pool.rotate (zh : Pool) : Pool :=
  let r := addrvec_next zh.addrs
  { zh with addrs := r.1, addr_cur := r.2 }

def zoo_cycle_next_server (zh : Pool) (drand48 : ℚ) : Pool :=
  if zh.reconfig then
    match get_next_server_in_reconfig zh drand48 with
    | some zh => zh
    | none => Pool.rotate { zh with reconfig := false }
  else zh.rotate

/-- The last two lines of `handle_error`. -/
def handle_error (zh : Pool) : Pool :=
  { zh.rotate with delay := addrvec_atend zh.addrs, fd := false }

/-- The handle of `zookeeper_init` before it knows a server. -/
def Pool.blank : Pool :=
  { addrs := .of [], addrs_old := .of [], addrs_new := .of [], addr_cur := .zero,
    reconfig := false, pOld := 0, pNew := 0, delay := false, fd := false }

/-- `opening` says that the I/O thread has a server and no socket yet. `tried` are the
servers that it took, and `listed` is the last list that `resolve_hosts` gave. -/
structure Connecting where
  zh : Pool
  opening : Bool
  tried : List Addr
  listed : List Addr
deriving DecidableEq, Repr

/-- The parts of `zookeeper_interest` and what other threads do between them. -/
inductive PoolAct
  /-- `update_addrs`, out of `zookeeper_interest` or `zoo_set_servers`. -/
  | update (resolved : List Addr) (drand48 : ℚ)
  /-- The pause before the next server. -/
  | wait
  /-- `zoo_cycle_next_server`. -/
  | cycle (drand48 : ℚ)
  /-- `socket` and `connect`. -/
  | socket
  /-- `handle_error`: there is no answer, or the connection is lost. -/
  | refuse
  /-- The handshake is through. -/
  | accept
deriving DecidableEq, Repr

/-- What `resolve_hosts` gives for host strings that name a server. An empty string gives
an empty list, without an error. -/
def resolvable (resolved : List Addr) : Bool :=
  !resolved.isEmpty && resolved.all fun addr => addr.family != .unspec

def Connecting.step (s : Connecting) : PoolAct → Option Connecting
  | .update resolved drand48 =>
    if resolvable resolved then
      some { s with zh := update_addrs s.zh resolved drand48, listed := resolved }
    else none
  | .wait =>
    if s.opening = false ∧ s.zh.fd = false ∧ s.zh.delay = true then
      some { s with zh := { s.zh with delay := false } }
    else none
  | .cycle drand48 =>
    if s.opening = false ∧ s.zh.fd = false ∧ s.zh.delay = false then
      let zh := zoo_cycle_next_server s.zh drand48
      some { s with zh, opening := true, tried := s.tried ++ [zh.addr_cur] }
    else none
  | .socket => if s.opening then some { s with zh := { s.zh with fd := true }, opening := false } else none
  | .refuse =>
    if s.opening || s.zh.fd then some { s with zh := handle_error s.zh, opening := false } else none
  | .accept => if s.zh.fd then some { s with zh := { s.zh with reconfig := false } } else none

def connecting (start : Connecting → Prop) : System Connecting PoolAct :=
  { start, step := Connecting.step }

/-- The handle as `zookeeper_init` leaves it, with a list that has no host twice. -/
def Connecting.opened (s : Connecting) : Prop :=
  (resolvable s.listed = true ∧ (s.listed.map Addr.host).Nodup) ∧ s.opening = false ∧ s.tried = [] ∧
    ∃ drand48, s.zh = update_addrs .blank s.listed drand48

/-! ## What a new list changes -/

/-- `update_addrs` with a list that is not equal to the old one. -/
structure Pool.Updated (zh : Pool) (resolved : List Addr) (zh' : Pool) : Prop where
  addrs : zh'.addrs = .of resolved
  old : zh'.addrs_old.data = resolved.filter fun addr => addrvec_contains zh.addrs.data addr
  new : zh'.addrs_new.data = resolved.filter fun addr => !addrvec_contains zh.addrs.data addr
  fresh : zh'.addrs_old.next = 0 ∧ zh'.addrs_new.next = 0
  cur : zh'.addr_cur = zh.addr_cur
  delay : zh'.delay = zh.delay
  fd : zh'.fd = (zh.fd && !zh'.reconfig)
  stays : zh'.reconfig = false → addrvec_contains resolved zh.addr_cur = true

theorem weigh_eq (zh : Pool) (found_current : Bool) (drand48 : ℚ) :
    ∃ reconfig pOld pNew, zh.weigh found_current drand48 = { zh with reconfig, pOld, pNew } ∧
      (zh.reconfig = true → reconfig = false → found_current = true) := by
  unfold Pool.weigh
  simp only
  split
  · split
    · rename_i hfound
      split
      · exact ⟨_, _, _, rfl, fun _ _ => hfound⟩
      · exact ⟨_, _, _, rfl, fun _ _ => hfound⟩
    · exact ⟨_, _, _, rfl, fun h h' => by simp [h] at h'⟩
  · split
    · rename_i hfound
      exact ⟨_, _, _, rfl, fun _ _ => hfound⟩
    · exact ⟨_, _, _, rfl, fun h h' => by simp [h] at h'⟩

theorem update_addrs_of_eq {zh : Pool} {resolved : List Addr}
    (h : addrvec_eq zh.addrs.data resolved = true) (drand48 : ℚ) :
    update_addrs zh resolved drand48 = zh := by
  unfold update_addrs
  rw [if_pos h]

theorem updated_update_addrs {zh : Pool} {resolved : List Addr}
    (h : addrvec_eq zh.addrs.data resolved = false) (drand48 : ℚ) :
    zh.Updated resolved (update_addrs zh resolved drand48) := by
  unfold update_addrs
  rw [if_neg (by simp [h])]
  obtain ⟨reconfig, pOld, pNew, heq, hstays⟩ :=
    weigh_eq (zh.divide resolved) (addrvec_contains resolved zh.addr_cur) drand48
  simp only [heq]
  exact ⟨rfl, rfl, rfl, ⟨rfl, rfl⟩, rfl, rfl, rfl, hstays rfl⟩

/-- The servers of both kinds are the servers of the list. -/
theorem Pool.Updated.perm {zh zh' : Pool} {resolved : List Addr} (h : zh.Updated resolved zh') :
    zh'.addrs_old.data ++ zh'.addrs_new.data ~ zh'.addrs.data := by
  rw [h.old, h.new, h.addrs]
  exact List.filter_append_perm _ _

/-- What `zoo_cycle_next_server` can do. -/
inductive Pool.Cycled (zh : Pool) : Pool → Prop
  | new : zh.reconfig = true → zh.addrs_new.next < zh.addrs_new.data.length →
      Cycled zh { zh with addrs_new := (addrvec_next zh.addrs_new).1
                          addr_cur := (addrvec_next zh.addrs_new).2 }
  | old : zh.reconfig = true → zh.addrs_old.next < zh.addrs_old.data.length →
      Cycled zh { zh with addrs_old := (addrvec_next zh.addrs_old).1
                          addr_cur := (addrvec_next zh.addrs_old).2 }
  | turn : (zh.reconfig = true → zh.addrs_old.next = zh.addrs_old.data.length ∧
        zh.addrs_new.next = zh.addrs_new.data.length) →
      Cycled zh (Pool.rotate { zh with reconfig := false })

theorem cycled_zoo_cycle_next_server (zh : Pool) (drand48 : ℚ) :
    zh.Cycled (zoo_cycle_next_server zh drand48) := by
  unfold zoo_cycle_next_server
  cases hr : zh.reconfig with
  | false =>
    have heq : zh.rotate = Pool.rotate { zh with reconfig := false } := by
      rw [← hr]
    simp only [Bool.false_eq_true, if_false]
    exact heq ▸ .turn (by simp [hr])
  | true =>
    unfold get_next_server_in_reconfig
    simp only [if_true]
    by_cases hnew : (addrvec_hasnext zh.addrs_new &&
        (decide (drand48 ≤ zh.pNew) || !addrvec_hasnext zh.addrs_old)) = true
    · rw [if_pos hnew]
      simp only [Bool.and_eq_true, addrvec_hasnext_iff] at hnew
      exact .new hr hnew.1
    · by_cases hold : addrvec_hasnext zh.addrs_old = true
      · rw [if_neg hnew, if_pos hold]
        exact .old hr (addrvec_hasnext_iff.mp hold)
      · rw [if_neg hnew, if_neg hold]
        refine .turn fun _ => ?_
        have hno : ¬ addrvec_hasnext zh.addrs_new = true := by
          intro hn
          simp [hn, hold] at hnew
        rw [addrvec_hasnext_iff] at hold hno
        have h1 := zh.addrs_old.le
        have h2 := zh.addrs_new.le
        omega

/-! ## An open connection is to a server of the list -/

/-- The lists agree with each other, and with the last one that came in as far as hosts
go. A server that was taken is on the list. -/
structure Connecting.OnList (s : Connecting) : Prop where
  hosts : (s.zh.addrs.data.map Addr.host).Nodup
  listed : s.zh.addrs.data.map Addr.host ~ s.listed.map Addr.host
  known : ∀ addr ∈ s.zh.addrs.data, addr.family ≠ .unspec
  some : 0 < s.zh.addrs.data.length
  split : s.zh.addrs_old.data ++ s.zh.addrs_new.data ~ s.zh.addrs.data
  cur : s.opening = true ∨ s.zh.fd = true → s.zh.addr_cur.host ∈ s.zh.addrs.data.map Addr.host

/-- No list has a host twice, and none comes in between the choice of a server and its
socket, unless the server is on it. -/
def heedful (s : Connecting) : PoolAct → Prop
  | .update resolved _ => (resolved.map Addr.host).Nodup ∧
      (s.opening = true → addrvec_contains resolved s.zh.addr_cur = true)
  | _ => True

instance (s : Connecting) : (a : PoolAct) → Decidable (heedful s a)
  | .update resolved _ => inferInstanceAs (Decidable ((resolved.map Addr.host).Nodup ∧
      (s.opening = true → addrvec_contains resolved s.zh.addr_cur = true)))
  | .wait | .cycle _ | .socket | .refuse | .accept => .isTrue trivial

theorem resolvable_iff {resolved : List Addr} : resolvable resolved = true ↔
    0 < resolved.length ∧ ∀ addr ∈ resolved, addr.family ≠ .unspec := by
  simp [resolvable, List.length_pos_iff]

/-- The cursor gives a server of its list. -/
theorem mem_of_addrvec_next {avec : AddrVec} (h : 0 < avec.data.length) :
    (addrvec_next avec).1.data = avec.data ∧ (addrvec_next avec).2 ∈ avec.data := by
  obtain ⟨hd, -, ha⟩ := addrvec_next_spec h
  exact ⟨hd, List.mem_of_getElem? ha⟩

theorem Connecting.onList_cycle {s : Connecting} (h : s.OnList) {zh' : Pool}
    (hc : s.zh.Cycled zh') (tried : List Addr) :
    Connecting.OnList { s with zh := zh', opening := true, tried } := by
  obtain ⟨hosts, listed, known, some, split, cur⟩ := h
  cases hc with
  | new hr hlt =>
    obtain ⟨hd, hm⟩ := mem_of_addrvec_next (Nat.lt_of_le_of_lt (Nat.zero_le _) hlt)
    refine ⟨hosts, listed, known, some, by simpa only [hd] using split, fun _ => ?_⟩
    exact List.mem_map_of_mem (split.subset (List.mem_append_right _ hm))
  | old hr hlt =>
    obtain ⟨hd, hm⟩ := mem_of_addrvec_next (Nat.lt_of_le_of_lt (Nat.zero_le _) hlt)
    refine ⟨hosts, listed, known, some, by simpa only [hd] using split, fun _ => ?_⟩
    exact List.mem_map_of_mem (split.subset (List.mem_append_left _ hm))
  | turn _ =>
    obtain ⟨hd, hm⟩ := mem_of_addrvec_next some
    unfold Pool.rotate
    simp only
    constructor <;> simp only [hd]
    · exact hosts
    · exact listed
    · exact known
    · exact some
    · exact split
    · exact fun _ => List.mem_map_of_mem hm

theorem Connecting.onList_update {s : Connecting} (h : s.OnList) {resolved : List Addr}
    (hok : resolvable resolved = true) (hn : (resolved.map Addr.host).Nodup)
    (hopen : s.opening = true → addrvec_contains resolved s.zh.addr_cur = true) (drand48 : ℚ) :
    Connecting.OnList { s with zh := update_addrs s.zh resolved drand48, listed := resolved } := by
  obtain ⟨hosts, listed, known, some, split, cur⟩ := h
  obtain ⟨hsome, hknown⟩ := resolvable_iff.mp hok
  cases heq : addrvec_eq s.zh.addrs.data resolved with
  | true =>
    rw [update_addrs_of_eq heq]
    exact ⟨hosts, (addrvec_eq_iff hosts known).mp heq, known, some, split, cur⟩
  | false =>
    have hu := updated_update_addrs heq drand48
    have hd : (update_addrs s.zh resolved drand48).addrs.data = resolved := by
      rw [hu.addrs]
      rfl
    refine ⟨by rwa [hd], by rw [hd], by rwa [hd], by rwa [hd], hu.perm, ?_⟩
    intro hcur
    have hin : addrvec_contains resolved s.zh.addr_cur = true := by
      rcases hcur with hcur | hcur
      · exact hopen hcur
      · rw [hu.fd, Bool.and_eq_true] at hcur
        exact hu.stays (by simpa using hcur.2)
    rw [hd, hu.cur]
    exact (addrvec_contains_iff.mp hin).1

theorem Connecting.onList_step {s s' : Connecting} {a : PoolAct} (h : s.OnList) (hg : heedful s a)
    (hs : s.step a = some s') : s'.OnList := by
  cases a with
  | update resolved drand48 =>
    simp only [Connecting.step] at hs
    split at hs
    · rename_i hok
      cases hs
      exact Connecting.onList_update h hok hg.1 hg.2 drand48
    · cases hs
  | wait =>
    simp only [Connecting.step] at hs
    split at hs
    · cases hs
      exact ⟨h.hosts, h.listed, h.known, h.some, h.split, h.cur⟩
    · cases hs
  | cycle drand48 =>
    simp only [Connecting.step] at hs
    split at hs
    · cases hs
      exact Connecting.onList_cycle h (cycled_zoo_cycle_next_server s.zh drand48) _
    · cases hs
  | socket =>
    simp only [Connecting.step] at hs
    split at hs
    · rename_i hopen
      cases hs
      exact ⟨h.hosts, h.listed, h.known, h.some, h.split, fun _ => h.cur (.inl hopen)⟩
    · cases hs
  | refuse =>
    simp only [Connecting.step] at hs
    split at hs
    · cases hs
      obtain ⟨hd, -⟩ := mem_of_addrvec_next h.some
      unfold handle_error Pool.rotate
      constructor <;> simp only [hd]
      · exact h.hosts
      · exact h.listed
      · exact h.known
      · exact h.some
      · exact h.split
      · simp
    · cases hs
  | accept =>
    simp only [Connecting.step] at hs
    split at hs
    · cases hs
      exact ⟨h.hosts, h.listed, h.known, h.some, h.split, h.cur⟩
    · cases hs

/-- The first list is new to a handle that knows none. -/
theorem blank_ne {listed : List Addr} (h : resolvable listed = true) :
    addrvec_eq Pool.blank.addrs.data listed = false := by
  obtain ⟨hsome, -⟩ := resolvable_iff.mp h
  unfold addrvec_eq
  simp only [Bool.and_eq_false_iff, beq_eq_false_iff_ne]
  refine .inl fun hlen => ?_
  rw [← hlen] at hsome
  exact absurd hsome (by decide)

theorem Connecting.onList_opened {s : Connecting} (h : s.opened) : s.OnList := by
  obtain ⟨⟨hok, hn⟩, ho, -, drand48, hzh⟩ := h
  obtain ⟨hsome, hknown⟩ := resolvable_iff.mp hok
  have hu := updated_update_addrs (blank_ne hok) drand48
  rw [← hzh] at hu
  have hd : s.zh.addrs.data = s.listed := congrArg AddrVec.data hu.addrs
  refine ⟨by rwa [hd], by rw [hd], by rwa [hd], by rwa [hd], hu.perm, ?_⟩
  have hfd : s.zh.fd = false := hu.fd
  simp [ho, hfd]

/-- Through all changes of the list, a socket is only open to a host of the last list. -/
theorem an_open_connection_is_to_a_listed_host {s : Connecting}
    (h : (connecting Connecting.opened).ReachBy heedful s) (hfd : s.zh.fd = true) :
    s.zh.addr_cur.host ∈ s.listed.map Addr.host := by
  have hs : s.OnList := by
    refine System.ReachBy.invariant (P := Connecting.OnList) ?_ ?_ h
    · exact fun _ h0 => Connecting.onList_opened h0
    · exact fun _ _ _ hi hg hst => Connecting.onList_step hi hg hst
  exact hs.listed.subset (hs.cur (.inr hfd))

/-- A server by the last number of its address. -/
def server (n : Nat) : Addr := { family := .inet, ip := n, port := 2181 }

/-- A handle that has just been opened with three servers. -/
def threeServers : Connecting :=
  { zh := update_addrs .blank [server 1, server 2, server 3] 0, opening := false, tried := [],
    listed := [server 1, server 2, server 3] }

theorem opened_threeServers : threeServers.opened := ⟨by decide, rfl, rfl, 0, rfl⟩

/-- The first server is taken off the list, and the handle goes to the one that is new. -/
theorem a_handle_leaves_a_server_that_is_gone :
    ∃ s, (connecting Connecting.opened).ReachBy heedful s ∧ s.zh.fd = true ∧
      s.tried = [server 1, server 4] ∧ s.zh.addr_cur.host ∈ s.listed.map Addr.host := by
  obtain ⟨s, hs, ht⟩ := System.ReachBy.of_run (M := connecting Connecting.opened) (G := heedful)
    (s := threeServers)
    ([.cycle 0, .socket, .accept, .update [server 4, server 2, server 3] 0, .cycle 0, .socket])
    (fun s => s.zh.fd && s.tried == [server 1, server 4]) (.start opened_threeServers)
    (by decide +kernel)
  simp only [Bool.and_eq_true, beq_iff_eq] at ht
  exact ⟨s, hs, ht.1, ht.2, an_open_connection_is_to_a_listed_host hs ht.1⟩

-- A list that comes in between the choice and the socket: the handle ends up on a server
-- that is not on it, and the next `update_addrs` finds nothing to do.
example : ((connecting Connecting.opened).run threeServers
    [.cycle 0, .update [server 2, server 3] 0, .socket, .accept,
      .update [server 3, server 2] 0]).any
    (fun s => s.zh.fd && s.zh.addr_cur == server 1) = true := by decide +kernel

/-! ## The servers in turn -/

/-- No server answers, and the list stays as it is. -/
def unanswered (s : Connecting) : PoolAct → Prop
  | .update resolved _ => addrvec_eq s.zh.addrs.data resolved = true
  | .accept => False
  | _ => True

instance (s : Connecting) : (a : PoolAct) → Decidable (unanswered s a)
  | .update resolved _ => inferInstanceAs (Decidable (addrvec_eq s.zh.addrs.data resolved = true))
  | .accept => .isFalse id
  | .wait | .cycle _ | .socket | .refuse => .isTrue trivial

/-- Every second place of a list, round and round from place `p`. -/
def everySecond (data : List Addr) (p k : Nat) : List Addr :=
  (List.range k).filterMap fun j => data[(p + 2 * j) % data.length]?

theorem everySecond_succ {data : List Addr} {p k : Nat} {addr : Addr}
    (h : data[(p + 2 * k) % data.length]? = some addr) :
    everySecond data p (k + 1) = everySecond data p k ++ [addr] := by
  unfold everySecond
  rw [List.range_succ, List.filterMap_append]
  simp [h]

theorem length_everySecond {data : List Addr} (h : 0 < data.length) (p k : Nat) :
    (everySecond data p k).length = k := by
  induction k with
  | zero => rfl
  | succ k ih =>
    have hlt := Nat.mod_lt (p + 2 * k) h
    rw [everySecond_succ (List.getElem?_eq_getElem hlt), List.length_append, ih]
    rfl

/-- A server was taken and has not failed yet. -/
def Connecting.pending (s : Connecting) : Nat := if s.opening || s.zh.fd then 1 else 0

/-- The cursor goes on by one place for each server that is taken, and by one for each
that fails. -/
structure Connecting.Turning (data : List Addr) (p : Nat) (before : List Addr) (k : Nat)
    (s : Connecting) : Prop where
  reconfig : s.zh.reconfig = false
  list : s.zh.addrs.data = data
  tried : s.tried = before ++ everySecond data p k
  next : (s.zh.addrs.next + s.pending) % data.length = (p + 2 * k) % data.length

theorem Connecting.turning_cycle {data before : List Addr} {p k : Nat} {s : Connecting}
    (h : s.Turning data p before k) (hd : 0 < data.length) (ho : s.opening = false)
    (hf : s.zh.fd = false) {zh' : Pool} (hc : s.zh.Cycled zh') :
    Connecting.Turning data p before (k + 1)
      { s with zh := zh', opening := true, tried := s.tried ++ [zh'.addr_cur] } := by
  obtain ⟨hr, hdata, htried, hnext⟩ := h
  subst hdata
  cases hc with
  | new hr' _ => simp [hr] at hr'
  | old hr' _ => simp [hr] at hr'
  | turn _ =>
    obtain ⟨hd', hn', ha'⟩ := addrvec_next_spec hd
    have hpos : s.zh.addrs.next % s.zh.addrs.data.length = (p + 2 * k) % s.zh.addrs.data.length := by
      simpa [Connecting.pending, ho, hf] using hnext
    rw [hpos] at ha' hn'
    refine ⟨rfl, hd', ?_, ?_⟩
    · rw [htried, everySecond_succ ha', List.append_assoc]
      rfl
    · simp only [Pool.rotate, Connecting.pending, Bool.true_or, if_true, hn']
      rw [Nat.add_assoc, Nat.mod_add_mod]
      congr 1

theorem Connecting.turning_refuse {data before : List Addr} {p k : Nat} {s : Connecting}
    (h : s.Turning data p before k) (hd : 0 < data.length)
    (hp : (s.opening || s.zh.fd) = true) :
    Connecting.Turning data p before k { s with zh := handle_error s.zh, opening := false } := by
  obtain ⟨hr, hdata, htried, hnext⟩ := h
  subst hdata
  obtain ⟨hd', hn', -⟩ := addrvec_next_spec hd
  refine ⟨hr, hd', htried, ?_⟩
  simp only [handle_error, Pool.rotate, Connecting.pending, Bool.or_self, Bool.false_eq_true,
    if_false, hn', Nat.add_zero]
  rw [Nat.mod_add_mod, ← hnext]
  simp [Connecting.pending, hp]

theorem Connecting.turning_step {data before : List Addr} {p k : Nat} {s s' : Connecting}
    {a : PoolAct} (h : s.Turning data p before k) (hd : 0 < data.length) (hg : unanswered s a)
    (hs : s.step a = some s') : ∃ k', s'.Turning data p before k' := by
  cases a with
  | update resolved drand48 =>
    simp only [Connecting.step] at hs
    split at hs
    · cases hs
      rw [update_addrs_of_eq hg]
      exact ⟨k, h.reconfig, h.list, h.tried, h.next⟩
    · cases hs
  | wait =>
    simp only [Connecting.step] at hs
    split at hs
    · cases hs
      exact ⟨k, h.reconfig, h.list, h.tried, h.next⟩
    · cases hs
  | cycle drand48 =>
    simp only [Connecting.step] at hs
    split at hs
    · rename_i hc
      cases hs
      exact ⟨k + 1, Connecting.turning_cycle h hd hc.1 hc.2.1
        (cycled_zoo_cycle_next_server s.zh drand48)⟩
    · cases hs
  | socket =>
    simp only [Connecting.step] at hs
    split at hs
    · rename_i ho
      cases hs
      refine ⟨k, h.reconfig, h.list, h.tried, ?_⟩
      simpa [Connecting.pending, ho] using h.next
    · cases hs
  | refuse =>
    simp only [Connecting.step] at hs
    split at hs
    · rename_i hp
      cases hs
      exact ⟨k, Connecting.turning_refuse h hd hp⟩
    · cases hs
  | accept => exact absurd hg id

/-- A server that fails after any number of others gives way to the next one. -/
theorem Connecting.turning_next {G : Connecting → Prop} {data before : List Addr} {p k : Nat}
    {s : Connecting} (hr : (connecting G).ReachBy unanswered s) (h : s.Turning data p before k)
    (hd : 0 < data.length) (ho : s.opening = false) (hf : s.zh.fd = false) :
    ∃ s', (connecting G).ReachBy unanswered s' ∧ s'.Turning data p before (k + 1) ∧
      s'.opening = false ∧ s'.zh.fd = false := by
  -- The pause, if there is one.
  obtain ⟨t, htr, ht, hto, htf, htd⟩ : ∃ t, (connecting G).ReachBy unanswered t ∧
      t.Turning data p before k ∧ t.opening = false ∧ t.zh.fd = false ∧ t.zh.delay = false := by
    cases hdel : s.zh.delay with
    | false => exact ⟨s, hr, h, ho, hf, hdel⟩
    | true =>
      refine ⟨{ s with zh := { s.zh with delay := false } }, ?_, ?_, ho, hf, rfl⟩
      · exact .step (l := .wait) hr trivial (by simp [connecting, Connecting.step, ho, hf, hdel])
      · exact ⟨h.reconfig, h.list, h.tried, h.next⟩
  have hc := Connecting.turning_cycle ht hd hto htf (cycled_zoo_cycle_next_server t.zh 0)
  have hcs : (connecting G).step t (.cycle 0) = some { t with
      zh := zoo_cycle_next_server t.zh 0, opening := true
      tried := t.tried ++ [(zoo_cycle_next_server t.zh 0).addr_cur] } := by
    simp only [connecting, Connecting.step]
    rw [if_pos ⟨hto, htf, htd⟩]
  have hcr := System.ReachBy.step (G := unanswered) (l := .cycle 0) htr trivial hcs
  exact ⟨_, .step (l := .refuse) hcr trivial rfl,
    Connecting.turning_refuse hc hd rfl, rfl, rfl⟩

/-- With an odd number of places, each one is among every second. -/
theorem exists_second {n p i : Nat} (hn : n % 2 = 1) (hi : i < n) : ∃ j, (p + 2 * j) % n = i := by
  have hp : p % n < n := Nat.mod_lt _ (by omega)
  obtain ⟨j, c, hj⟩ : ∃ j c, p % n + 2 * j = i + n * c := by
    rcases Nat.mod_two_eq_zero_or_one (i + 2 * n - p % n) with hpar | hpar
    · exact ⟨(i + 2 * n - p % n) / 2, 2, by omega⟩
    · exact ⟨(i + 3 * n - p % n) / 2, 3, by omega⟩
  refine ⟨j, ?_⟩
  rw [← Nat.mod_add_mod, hj, Nat.add_mul_mod_self_left, Nat.mod_eq_of_lt hi]

/-- With an even number, the place after `p` is not. -/
theorem not_second {n p : Nat} (hn : n % 2 = 0) (j : Nat) :
    (p + 2 * j) % n ≠ (p + 1) % n := by
  intro h
  have h2 : 2 ∣ n := Nat.dvd_of_mod_eq_zero hn
  have hpar := congrArg (· % 2) h
  simp only [Nat.mod_mod_of_dvd _ h2] at hpar
  omega

/-- The handle tries every second server, so all of them come round again exactly when
their number is odd. -/
theorem every_server_is_tried_again_iff {s : Connecting} (hr : s.zh.reconfig = false)
    (ho : s.opening = false) (hf : s.zh.fd = false) (ht : s.tried = [])
    (hd : 0 < s.zh.addrs.data.length) (hn : s.zh.addrs.data.Nodup) :
    (∀ addr ∈ s.zh.addrs.data,
        ∃ t, (connecting (· = s)).ReachBy unanswered t ∧ addr ∈ t.tried) ↔
      s.zh.addrs.data.length % 2 = 1 := by
  have hstart : s.Turning s.zh.addrs.data s.zh.addrs.next [] 0 := by
    refine ⟨hr, rfl, ht, ?_⟩
    simp [Connecting.pending, ho, hf]
  constructor
  · intro hall
    by_contra hodd
    have heven : s.zh.addrs.data.length % 2 = 0 := by omega
    have hlt := Nat.mod_lt (s.zh.addrs.next + 1) hd
    obtain ⟨t, htr, hmem⟩ := hall _ (List.getElem_mem hlt)
    obtain ⟨k, hk⟩ : ∃ k, t.Turning s.zh.addrs.data s.zh.addrs.next [] k := by
      refine System.ReachBy.invariant
        (P := fun t => ∃ k, t.Turning s.zh.addrs.data s.zh.addrs.next [] k) ?_ ?_ htr
      · rintro t rfl
        exact ⟨0, hstart⟩
      · rintro t a t' ⟨k, hk⟩ hg hst
        exact Connecting.turning_step hk hd hg hst
    rw [hk.tried, List.nil_append] at hmem
    obtain ⟨j, -, hj⟩ := List.mem_filterMap.mp hmem
    obtain ⟨hlt', hj⟩ := List.getElem?_eq_some_iff.mp hj
    exact not_second heven j (hn.getElem_inj_iff.mp hj)
  · intro hodd addr hmem
    obtain ⟨i, hi, rfl⟩ := List.mem_iff_getElem.mp hmem
    obtain ⟨j, hj⟩ := exists_second (p := s.zh.addrs.next) hodd hi
    have hreach : ∀ k, ∃ t, (connecting (· = s)).ReachBy unanswered t ∧
        t.Turning s.zh.addrs.data s.zh.addrs.next [] k ∧ t.opening = false ∧ t.zh.fd = false := by
      intro k
      induction k with
      | zero => exact ⟨s, .start rfl, hstart, ho, hf⟩
      | succ k ih =>
        obtain ⟨t, htr, ht, hto, htf⟩ := ih
        exact Connecting.turning_next htr ht hd hto htf
    obtain ⟨t, htr, ht, -⟩ := hreach (j + 1)
    refine ⟨t, htr, ?_⟩
    rw [ht.tried, List.nil_append]
    refine List.mem_filterMap.mpr ⟨j, by simp, ?_⟩
    rw [hj]
    exact List.getElem?_eq_getElem hi

/-- A handle that lost its connection, after a first round. -/
def lostAmong (servers : List Addr) : Connecting :=
  { zh := { Pool.blank with addrs := .of servers }, opening := false, tried := [], listed := servers }

/-- Of two servers one is not tried again, of three each one is. -/
theorem one_of_two_servers_is_left_out :
    (¬ ∀ addr ∈ [server 1, server 2], ∃ t,
        (connecting (· = lostAmong [server 1, server 2])).ReachBy unanswered t ∧ addr ∈ t.tried) ∧
      ∀ addr ∈ [server 1, server 2, server 3], ∃ t,
        (connecting (· = lostAmong [server 1, server 2, server 3])).ReachBy unanswered t ∧
          addr ∈ t.tried := by
  constructor
  · intro hall
    have h := (every_server_is_tried_again_iff (s := lostAmong [server 1, server 2]) rfl rfl rfl rfl
      (by decide) (by decide)).mp hall
    exact absurd h (by decide)
  · exact (every_server_is_tried_again_iff (s := lostAmong [server 1, server 2, server 3]) rfl rfl
      rfl rfl (by decide) (by decide)).mpr (by decide)

/-! ## The first round of a new list -/

/-- The servers that the first round has taken so far. -/
def Pool.taken (zh : Pool) : List Addr :=
  zh.addrs_old.data.take zh.addrs_old.next ++ zh.addrs_new.data.take zh.addrs_new.next

/-- A first round under way. The cursor of the whole list counts the servers that failed. -/
structure Connecting.FirstRound (data : List Addr) (s : Connecting) : Prop where
  reconfig : s.zh.reconfig = true
  list : s.zh.addrs.data = data
  split : s.zh.addrs_old.data ++ s.zh.addrs_new.data ~ data
  tried : s.tried ~ s.zh.taken
  next : s.zh.addrs.next + s.pending = s.tried.length

theorem Connecting.FirstRound.sublist {data : List Addr} {s : Connecting} (h : s.FirstRound data) :
    ∃ rest, s.tried ++ rest ~ data := by
  refine ⟨s.zh.addrs_old.data.drop s.zh.addrs_old.next ++
    s.zh.addrs_new.data.drop s.zh.addrs_new.next, ?_⟩
  calc s.tried ++ (_ ++ _)
    _ ~ s.zh.taken ++ (_ ++ _) := h.tried.append_right _
    _ ~ s.zh.addrs_old.data ++ s.zh.addrs_new.data := by
      have hswap := List.perm_append_comm_assoc
        (s.zh.addrs_new.data.take s.zh.addrs_new.next)
        (s.zh.addrs_old.data.drop s.zh.addrs_old.next)
        (s.zh.addrs_new.data.drop s.zh.addrs_new.next)
      rw [List.take_append_drop] at hswap
      refine ((List.Perm.of_eq (List.append_assoc ..)).trans (hswap.append_left _)).trans ?_
      rw [← List.append_assoc, List.take_append_drop]
    _ ~ data := h.split

theorem Connecting.FirstRound.length_le {data : List Addr} {s : Connecting}
    (h : s.FirstRound data) : s.tried.length ≤ data.length := by
  obtain ⟨rest, hp⟩ := h.sublist
  have := hp.length_eq
  rw [List.length_append] at this
  omega

/-- Where a cursor is not at the end, it gives the next one of its list. -/
theorem take_addrvec_next {avec : AddrVec} (h : avec.next < avec.data.length) :
    (addrvec_next avec).1.data = avec.data ∧
      avec.data.take (addrvec_next avec).1.next = avec.data.take avec.next ++ [(addrvec_next avec).2] := by
  obtain ⟨hd, hn, ha⟩ := addrvec_next_spec (Nat.lt_of_le_of_lt (Nat.zero_le _) h)
  rw [Nat.mod_eq_of_lt h] at hn ha
  refine ⟨hd, ?_⟩
  rw [hn, List.take_add_one, ha]
  rfl

/-- The next server of the first round, or the first one of the turns after it. -/
theorem Connecting.firstRound_cycle {data : List Addr} {s : Connecting} (h : s.FirstRound data)
    (hd : 0 < data.length) (ho : s.opening = false) (hf : s.zh.fd = false) {zh' : Pool}
    (hc : s.zh.Cycled zh') :
    Connecting.FirstRound data
        { s with zh := zh', opening := true, tried := s.tried ++ [zh'.addr_cur] } ∨
      s.tried ~ data ∧ Connecting.Turning data 0 s.tried 1
        { s with zh := zh', opening := true, tried := s.tried ++ [zh'.addr_cur] } := by
  have hidle : s.zh.addrs.next = s.tried.length := by
    simpa [Connecting.pending, ho, hf] using h.next
  cases hc with
  | new _ hlt =>
    obtain ⟨hd', ht'⟩ := take_addrvec_next hlt
    refine .inl ⟨h.reconfig, h.list, by simpa only [hd'] using h.split, ?_, ?_⟩
    · unfold Pool.taken
      simp only [hd']
      rw [ht', ← List.append_assoc]
      exact h.tried.append_right _
    · simp [Connecting.pending, hidle]
  | old _ hlt =>
    obtain ⟨hd', ht'⟩ := take_addrvec_next hlt
    refine .inl ⟨h.reconfig, h.list, by simpa only [hd'] using h.split, ?_, ?_⟩
    · unfold Pool.taken
      simp only [hd']
      rw [ht', List.append_assoc]
      refine (h.tried.append_right _).trans ?_
      unfold Pool.taken
      rw [List.append_assoc]
      exact List.perm_append_comm.append_left _
    · simp [Connecting.pending, hidle]
  | turn hend =>
    obtain ⟨hold, hnew⟩ := hend h.reconfig
    have hall : s.tried ~ data := by
      refine h.tried.trans ?_
      unfold Pool.taken
      rw [hold, hnew, List.take_length, List.take_length]
      exact h.split
    have hlen : s.zh.addrs.next = data.length := hidle.trans hall.length_eq
    have hpos : 0 < s.zh.addrs.data.length := by rwa [h.list]
    obtain ⟨hd', hn', ha'⟩ := addrvec_next_spec hpos
    rw [h.list, hlen, Nat.mod_self] at hn' ha'
    refine .inr ⟨hall, rfl, hd'.trans h.list, ?_, ?_⟩
    · have h0 : data[(0 + 2 * 0) % data.length]? = some (addrvec_next s.zh.addrs).2 := by
        simpa using ha'
      rw [everySecond_succ h0]
      rfl
    · simp [Pool.rotate, Connecting.pending, hn']

theorem Connecting.firstRound_refuse {data : List Addr} {s : Connecting} (h : s.FirstRound data)
    (hp : (s.opening || s.zh.fd) = true) :
    Connecting.FirstRound data { s with zh := handle_error s.zh, opening := false } ∧
      (handle_error s.zh).delay = false := by
  have hle := h.length_le
  have hnext := h.next
  simp only [Connecting.pending, hp, if_true] at hnext
  have hlt : s.zh.addrs.next < s.zh.addrs.data.length := by
    rw [h.list]
    omega
  obtain ⟨hd', hn', -⟩ := addrvec_next_spec (Nat.lt_of_le_of_lt (Nat.zero_le _) hlt)
  rw [Nat.mod_eq_of_lt hlt] at hn'
  refine ⟨⟨h.reconfig, hd'.trans h.list, h.split, h.tried, ?_⟩, ?_⟩
  · simpa [handle_error, Pool.rotate, Connecting.pending, hn'] using hnext
  · simp [handle_error, addrvec_atend, hlt]

/-- With an even number of servers the cursor is not at the end when a server fails. -/
theorem Connecting.turning_delay {data before : List Addr} {k : Nat} {s : Connecting}
    (h : s.Turning data 0 before k) (hp : (s.opening || s.zh.fd) = true)
    (heven : data.length % 2 = 0) : (handle_error s.zh).delay = false := by
  have hnext := h.next
  simp only [Connecting.pending, hp, if_true] at hnext
  have hne : s.zh.addrs.next ≠ data.length := by
    intro heq
    have hpar := congrArg (· % 2) hnext
    simp only [Nat.mod_mod_of_dvd _ (Nat.dvd_of_mod_eq_zero heven), heq] at hpar
    omega
  have hlt : s.zh.addrs.next < s.zh.addrs.data.length := by
    have := s.zh.addrs.le
    rw [h.list] at this ⊢
    omega
  simp [handle_error, addrvec_atend, hlt]

/-- A list that was new: the first round, and the turns after it. -/
inductive Connecting.Rounds (data : List Addr) (s : Connecting) : Prop
  | first : s.FirstRound data → s.zh.delay = false → Rounds data s
  | later {before : List Addr} {k : Nat} : before ~ data → s.Turning data 0 before k →
      (data.length % 2 = 0 → s.zh.delay = false) → Rounds data s

theorem Connecting.rounds_cycle {data : List Addr} {s : Connecting} (h : s.Rounds data)
    (hd : 0 < data.length) (ho : s.opening = false) (hf : s.zh.fd = false)
    (hdel : s.zh.delay = false) {zh' : Pool} (hc : s.zh.Cycled zh') :
    Connecting.Rounds data
      { s with zh := zh', opening := true, tried := s.tried ++ [zh'.addr_cur] } := by
  have hdel' : zh'.delay = false := by cases hc <;> exact hdel
  cases h with
  | first h _ =>
    rcases Connecting.firstRound_cycle h hd ho hf hc with h' | ⟨hp, h'⟩
    · exact .first h' hdel'
    · exact .later hp h' fun _ => hdel'
  | later hp h _ => exact .later hp (Connecting.turning_cycle h hd ho hf hc) fun _ => hdel'

theorem Connecting.rounds_refuse {data : List Addr} {s : Connecting} (h : s.Rounds data)
    (hd : 0 < data.length) (hp : (s.opening || s.zh.fd) = true) :
    Connecting.Rounds data { s with zh := handle_error s.zh, opening := false } := by
  cases h with
  | first h _ =>
    obtain ⟨h', hdel⟩ := Connecting.firstRound_refuse h hp
    exact .first h' hdel
  | later hb h _ =>
    exact .later hb (Connecting.turning_refuse h hd hp) (Connecting.turning_delay h hp)

/-- A step that leaves the lists and the cursors as they are. -/
theorem Connecting.Rounds.same {data : List Addr} {s s' : Connecting} (h : s.Rounds data)
    (hr : s'.zh.reconfig = s.zh.reconfig) (ha : s'.zh.addrs = s.zh.addrs)
    (ho : s'.zh.addrs_old = s.zh.addrs_old) (hn : s'.zh.addrs_new = s.zh.addrs_new)
    (ht : s'.tried = s.tried) (hp : s'.pending = s.pending)
    (hd : s.zh.delay = false → s'.zh.delay = false) : s'.Rounds data := by
  cases h with
  | first h hdel =>
    refine .first ⟨hr ▸ h.reconfig, ha ▸ h.list, ?_, ?_, ?_⟩ (hd hdel)
    · rw [ho, hn]
      exact h.split
    · unfold Pool.taken
      rw [ht, ho, hn]
      exact h.tried
    · rw [ha, hp, ht]
      exact h.next
  | later hb h hdel =>
    refine .later hb ⟨hr ▸ h.reconfig, ha ▸ h.list, ht ▸ h.tried, ?_⟩ fun he => hd (hdel he)
    rw [ha, hp]
    exact h.next

theorem Connecting.rounds_step {data : List Addr} {s s' : Connecting} {a : PoolAct}
    (h : s.Rounds data) (hd : 0 < data.length) (hg : unanswered s a)
    (hs : s.step a = some s') : s'.Rounds data := by
  cases a with
  | update resolved drand48 =>
    simp only [Connecting.step] at hs
    split at hs
    · cases hs
      rw [update_addrs_of_eq hg]
      exact h.same rfl rfl rfl rfl rfl rfl id
    · cases hs
  | wait =>
    simp only [Connecting.step] at hs
    split at hs
    · cases hs
      exact h.same rfl rfl rfl rfl rfl rfl fun _ => rfl
    · cases hs
  | cycle drand48 =>
    simp only [Connecting.step] at hs
    split at hs
    · rename_i hc
      cases hs
      exact Connecting.rounds_cycle h hd hc.1 hc.2.1 hc.2.2
        (cycled_zoo_cycle_next_server s.zh drand48)
    · cases hs
  | socket =>
    simp only [Connecting.step] at hs
    split at hs
    · rename_i ho
      cases hs
      exact h.same rfl rfl rfl rfl rfl (by simp [Connecting.pending, ho]) id
    · cases hs
  | refuse =>
    simp only [Connecting.step] at hs
    split at hs
    · rename_i hp
      cases hs
      exact Connecting.rounds_refuse h hd hp
    · cases hs
  | accept => exact absurd hg id

/-- As long as no server of a new list answers, each one is tried once, in whatever order
the draws give. After that it is every second one in turn, and with an even number of
servers there is never a pause. -/
theorem a_new_list_is_tried_once {zh : Pool} {resolved : List Addr} {drand48 : ℚ}
    (hne : addrvec_eq zh.addrs.data resolved = false) (hsome : resolved ≠ [])
    (hmove : (update_addrs zh resolved drand48).reconfig = true) (hdelay : zh.delay = false)
    {s t : Connecting} (hs : s.zh = update_addrs zh resolved drand48 ∧ s.opening = false ∧ s.tried = [])
    (h : (connecting (· = s)).ReachBy unanswered t) :
    (∃ rest, t.tried.take resolved.length ++ rest ~ resolved) ∧
      t.tried.drop resolved.length =
        everySecond resolved 0 (t.tried.length - resolved.length) ∧
      (resolved.length % 2 = 0 → t.zh.delay = false) := by
  have hd : 0 < resolved.length := List.length_pos_iff.mpr hsome
  have ht : t.Rounds resolved := by
    refine System.ReachBy.invariant (P := Connecting.Rounds resolved) ?_ ?_ h
    · rintro t rfl
      obtain ⟨hzh, ho, htr⟩ := hs
      have hu := updated_update_addrs hne drand48
      rw [← hzh] at hu hmove
      have hfd : t.zh.fd = false := by rw [hu.fd, hmove]; simp
      refine .first ⟨hmove, by rw [hu.addrs]; rfl, ?_, ?_, ?_⟩ (hu.delay.trans hdelay)
      · have hperm := hu.perm
        rw [hu.addrs] at hperm
        exact hperm
      · unfold Pool.taken
        rw [htr, hu.fresh.1, hu.fresh.2]
        exact List.Perm.refl _
      · simp [hu.addrs, AddrVec.of, Connecting.pending, ho, hfd, htr]
    · exact fun _ _ _ hi hg hst => Connecting.rounds_step hi hd hg hst
  cases ht with
  | first hf hdel =>
    have hle := hf.length_le
    rw [List.take_of_length_le hle, List.drop_of_length_le hle, Nat.sub_eq_zero_of_le hle]
    exact ⟨hf.sublist, rfl, fun _ => hdel⟩
  | @later before k hb htn hdel =>
    have hlen := hb.length_eq
    refine ⟨⟨[], ?_⟩, ?_, hdel⟩
    · rw [htn.tried, ← hlen, List.take_left, List.append_nil]
      exact hb
    · rw [htn.tried, List.length_append, length_everySecond hd, ← hlen, List.drop_left,
        Nat.add_sub_cancel_left]

/-- Three servers in the order of the draws, and the first ones of the turns after them. -/
theorem three_new_servers_are_tried_once :
    ∃ t, (connecting (· = threeServers)).ReachBy unanswered t ∧
      t.tried = [server 1, server 2, server 3, server 1, server 3] ∧
      ∃ rest, t.tried.take 3 ++ rest ~ [server 1, server 2, server 3] := by
  obtain ⟨t, ht, htest⟩ := System.ReachBy.of_run (M := connecting (· = threeServers))
    (G := unanswered) (s := threeServers)
    ([.cycle 0, .socket, .refuse, .update [server 3, server 1, server 2] 0, .cycle 0, .refuse,
      .cycle 0, .refuse, .cycle 0, .refuse, .cycle 0, .refuse])
    (fun t => t.tried == [server 1, server 2, server 3, server 1, server 3]) (.start rfl)
    (by decide +kernel)
  have hne : addrvec_eq Pool.blank.addrs.data [server 1, server 2, server 3] = false := by decide
  have hmove : (update_addrs .blank [server 1, server 2, server 3] 0).reconfig = true := by
    decide +kernel
  exact ⟨t, ht, by simpa using htest,
    (a_new_list_is_tried_once hne (by decide) hmove rfl ⟨rfl, rfl, rfl⟩ ht).1⟩

end ZookZhubei
