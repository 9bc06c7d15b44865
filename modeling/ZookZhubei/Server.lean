-- The server, as far as the program relies on it: one order of all requests,
-- sessions that end once and for all, and ephemeral nodes that live exactly
-- as long as the session that made them. What it answers is not fixed: it can
-- apply a request, or refuse it for a reason that is not modelled. Other
-- clients make and remove persistent nodes.
import ZookZhubei.MyApp

namespace ZookZhubei

def rootPath : Str := [slash]

/-- The codes with which the server can refuse a request of a live session,
whatever it knows of the path: the parent is missing or ephemeral, an ACL
forbids it, a node has children, the server fails, and so on. The other codes
say what they say: that a node is there, that none is there, or that the
session is gone. -/
def Op.refusal (op : Op) (rc : Int) : Bool :=
  match op with
  | .create _ _ => rc ∉ [ZOK, ZNODEEXISTS, ZSESSIONEXPIRED, ZINVALIDSTATE]
  | _ => rc ∉ [ZOK, ZNONODE, ZNODEEXISTS, ZSESSIONEXPIRED, ZINVALIDSTATE]

/-- What another client does. -/
inductive Edit
  | make (path data : Str)
  | remove (path : Str)
deriving DecidableEq, Repr

/-- `next` is the next session to give out, and `zxid` the next number of a
node. -/
structure Server where
  live : Session → Bool
  next : Session
  nodes : Str → Option Znode
  zxid : Nat

namespace Server

/-- Nothing but the root is there. -/
def start : Server :=
  { live := fun _ => false, next := 0, zxid := 1,
    nodes := fun q => if q = rootPath then some { data := [], owner := none, czxid := 0 } else none }

/-- A request of the session `s`, when the server applies it: the server after
it, and the answer. A delete is one with version -1. -/
def apply (v : Server) (s : Session) (op : Op) : Server × Reply :=
  if v.live s = false then (v, .err ZSESSIONEXPIRED)
  else match op, v.nodes op.path with
    | .create path data, none =>
      let n : Znode := { data, owner := some s, czxid := v.zxid }
      ({ v with nodes := Function.update v.nodes path (some n), zxid := v.zxid + 1 },
        { rc := ZOK, seen := none })
    | .create _ _, some n => (v, { rc := ZNODEEXISTS, seen := some n })
    | .get _, some n => (v, { rc := ZOK, data := some n.data, seen := some n })
    | .exist _, some n => (v, { rc := ZOK, seen := some n })
    | .delete path, some n =>
      if path = rootPath then (v, .err ZBADARGUMENTS)
      else ({ v with nodes := Function.update v.nodes path none }, { rc := ZOK, seen := some n })
    | .get _, none | .exist _, none | .delete _, none => (v, .err ZNONODE)

/-- The session ends, and its nodes go with it. -/
def expire (v : Server) (s : Session) : Server :=
  { v with live := Function.update v.live s false,
           nodes := fun q => (v.nodes q).filter fun n => n.owner != some s }

/-- A handshake with no session opens one. -/
def openSession (v : Server) : Server :=
  { v with live := Function.update v.live v.next true, next := v.next + 1 }

def edit (v : Server) : Edit → Option Server
  | .make path data =>
    if v.nodes path = none then
      let n : Znode := { data, owner := none, czxid := v.zxid }
      some { v with nodes := Function.update v.nodes path (some n), zxid := v.zxid + 1 }
    else none
  | .remove path =>
    if path ≠ rootPath ∧ (v.nodes path).any fun n => n.owner == none then
      some { v with nodes := Function.update v.nodes path none }
    else none

/-! ## What a request can do -/

variable {v : Server} {s : Session} {op : Op} {q : Str} {n : Znode}

@[simp] theorem apply_live (v : Server) (s : Session) (op : Op) :
    (v.apply s op).1.live = v.live := by
  unfold apply
  split
  · rfl
  · split <;> first
      | rfl
      | split <;> rfl

@[simp] theorem apply_next (v : Server) (s : Session) (op : Op) :
    (v.apply s op).1.next = v.next := by
  unfold apply
  split
  · rfl
  · split <;> first
      | rfl
      | split <;> rfl

/-- A request of an ended session is refused. -/
theorem apply_ended (h : v.live s = false) : v.apply s op = (v, .err ZSESSIONEXPIRED) := by
  simp [apply, h]

/-- A create makes the node where there is none, and a delete takes the node
away where there is one. Nothing else changes a node. -/
theorem apply_nodes (v : Server) (s : Session) (op : Op) :
    (v.apply s op).1.nodes = v.nodes ∨
      (∃ path data, op = .create path data ∧ v.live s = true ∧ v.nodes path = none ∧
        (v.apply s op).1.nodes =
          Function.update v.nodes path (some { data, owner := some s, czxid := v.zxid })) ∨
      (∃ path n, op = .delete path ∧ path ≠ rootPath ∧ v.live s = true ∧ v.nodes path = some n ∧
        (v.apply s op).1.nodes = Function.update v.nodes path none) := by
  cases hl : v.live s with
  | false => exact Or.inl (by rw [apply_ended hl])
  | true =>
    cases op with
    | create path data =>
      cases hn : v.nodes path with
      | none => exact Or.inr (Or.inl ⟨path, data, rfl, rfl, hn, by simp [apply, hl, Op.path, hn]⟩)
      | some n => exact Or.inl (by simp [apply, hl, Op.path, hn])
    | delete path =>
      cases hn : v.nodes path with
      | none => exact Or.inl (by simp [apply, hl, Op.path, hn])
      | some n =>
        by_cases hr : path = rootPath
        · subst hr
          exact Or.inl (by simp [apply, hl, Op.path, hn])
        · exact Or.inr (Or.inr ⟨path, n, rfl, hr, rfl, hn, by simp [apply, hl, Op.path, hn, hr]⟩)
    | get path => cases hn : v.nodes path <;> exact Or.inl (by simp [apply, hl, Op.path, hn])
    | exist path => cases hn : v.nodes path <;> exact Or.inl (by simp [apply, hl, Op.path, hn])

/-- Every node after a request was there before, or is the one that the
request made. -/
theorem apply_nodes_some (h : (v.apply s op).1.nodes q = some n) :
    v.nodes q = some n ∨
      (op = .create q n.data ∧ n.owner = some s ∧ n.czxid = v.zxid ∧ v.live s = true ∧
        v.nodes q = none) := by
  rcases apply_nodes v s op with he | ⟨path, data, ho, hl, hn, he⟩ | ⟨path, m, ho, _, hl, hn, he⟩
  · rw [he] at h
    exact Or.inl h
  · rw [he] at h
    by_cases hq : q = path
    · subst hq
      simp only [Function.update_self, Option.some.injEq] at h
      subst h
      exact Or.inr ⟨ho, rfl, rfl, hl, hn⟩
    · rw [Function.update_of_ne hq] at h
      exact Or.inl h
  · rw [he] at h
    by_cases hq : q = path
    · subst hq
      simp at h
    · rw [Function.update_of_ne hq] at h
      exact Or.inl h

/-- Only a delete of its path takes a node away. -/
theorem apply_keeps (h : v.nodes q = some n) (hop : op ≠ .delete q) :
    (v.apply s op).1.nodes q = some n := by
  rcases apply_nodes v s op with he | ⟨path, data, ho, hl, hn, he⟩ | ⟨path, m, ho, _, hl, hn, he⟩
  · rw [he]
    exact h
  · have hq : q ≠ path := by
      rintro rfl
      rw [hn] at h
      cases h
    rw [he, Function.update_of_ne hq]
    exact h
  · have hq : q ≠ path := by
      rintro rfl
      exact hop ho
    rw [he, Function.update_of_ne hq]
    exact h

/-- Nobody takes the root away. -/
theorem apply_keeps_root (h : v.nodes rootPath = some n) :
    (v.apply s op).1.nodes rootPath = some n := by
  by_cases hop : op = .delete rootPath
  · subst hop
    cases hl : v.live s with
    | false => rw [apply_ended hl, h]
    | true => simp [apply, hl, Op.path, h]
  · exact apply_keeps h hop

theorem apply_zxid_le (v : Server) (s : Session) (op : Op) :
    v.zxid ≤ (v.apply s op).1.zxid := by
  unfold apply
  split
  · exact Nat.le_refl _
  · split <;> first
      | exact Nat.le_refl _
      | exact Nat.le_succ _
      | split <;> exact Nat.le_refl _

/-- The node that a request makes has a number below the next one. -/
theorem apply_czxid (h : (v.apply s op).1.nodes q = some n) (hv : v.nodes q ≠ some n) :
    n.czxid < (v.apply s op).1.zxid := by
  rcases apply_nodes_some h with h1 | ⟨ho, _, hz, hl, hn⟩
  · exact absurd h1 hv
  · subst ho
    simp [apply, hl, Op.path, hn, hz]

/-! ## Owners -/

/-- The session `s` owns the node at `q`. -/
def Owns (v : Server) (q : Str) (s : Session) : Prop :=
  ∃ n, v.nodes q = some n ∧ n.owner = some s

theorem Owns.unique {t : Session} (hs : v.Owns q s) (ht : v.Owns q t) : s = t := by
  obtain ⟨n, hn, ho⟩ := hs
  obtain ⟨m, hm, ho'⟩ := ht
  rw [hn] at hm
  cases hm
  rw [ho] at ho'
  cases ho'
  rfl

/-- A node only goes by a delete, and no owner loses it to another one's delete
when all who delete are owners. -/
theorem Owns.apply {t : Session} (h : v.Owns q t)
    (hd : op = .delete q → v.live s = true → v.Owns q s ∧ t ≠ s) : (v.apply s op).1.Owns q t := by
  cases hl : v.live s with
  | false =>
    rw [apply_ended hl]
    exact h
  | true =>
    by_cases hop : op = .delete q
    · obtain ⟨ho, hne⟩ := hd hop hl
      exact absurd (h.unique ho) hne
    · obtain ⟨n, hn, ho⟩ := h
      exact ⟨n, apply_keeps hn hop, ho⟩

/-! ## The answers -/

/-- A create that the server accepts leaves the node in the hands of the
session. -/
theorem apply_create_ok {path data : Str} (h : (v.apply s (.create path data)).2.rc = ZOK) :
    (v.apply s (.create path data)).1.Owns path s := by
  cases hl : v.live s with
  | false =>
    rw [apply_ended hl] at h
    cases h
  | true =>
    cases hn : v.nodes path with
    | none => exact ⟨{ data, owner := some s, czxid := v.zxid }, by simp [apply, hl, Op.path, hn], rfl⟩
    | some n =>
      simp only [apply, hl, Op.path, hn] at h
      cases h

/-- A create of a live session never fails but on a node that is there. -/
theorem apply_create_exists (path data : Str) (hl : v.live s = true) :
    ∃ n, (v.apply s (.create path data)).1.nodes path = some n := by
  cases hn : v.nodes path with
  | none => exact ⟨{ data, owner := some s, czxid := v.zxid }, by simp [apply, hl, Op.path, hn]⟩
  | some n => exact ⟨n, by simp [apply, hl, Op.path, hn]⟩

/-- The server looks at the node of the path, and at no other. -/
theorem apply_seen (h : (v.apply s op).2.seen = some n) : v.nodes op.path = some n := by
  cases hl : v.live s with
  | false =>
    rw [apply_ended hl] at h
    cases h
  | true =>
    cases hn : v.nodes op.path with
    | none => cases op <;> simp_all [apply, Reply.err, Op.path]
    | some m =>
      cases op with
      | delete path =>
        simp only [Op.path] at hn
        simp only [apply, hl, Op.path, hn] at h
        split_ifs at h <;> simp_all [Reply.err]
      | _ => simp_all [apply, Op.path]

/-- A read that succeeds gives the node, and changes nothing. -/
theorem apply_get (hr : (v.apply s (.get q)).2.rc = ZOK) :
    v.live s = true ∧ (v.apply s (.get q)).1 = v ∧ ∃ n, v.nodes q = some n ∧
      (v.apply s (.get q)).2 = { rc := ZOK, data := some n.data, seen := some n } := by
  cases hl : v.live s with
  | false =>
    rw [apply_ended hl] at hr
    cases hr
  | true =>
    cases hn : v.nodes q with
    | none =>
      simp only [apply, hl, Op.path, hn] at hr
      cases hr
    | some m => exact ⟨rfl, by simp [apply, hl, Op.path, hn], m, rfl, by simp [apply, hl, Op.path, hn]⟩

/-- `zoo_exists` succeeds on a node only. -/
theorem apply_exist (hr : (v.apply s (.exist q)).2.rc = ZOK) :
    ∃ n, v.nodes q = some n ∧ (v.apply s (.exist q)).2.seen = some n := by
  cases hl : v.live s with
  | false =>
    rw [apply_ended hl] at hr
    cases hr
  | true =>
    cases hn : v.nodes q with
    | none =>
      simp only [apply, hl, Op.path, hn] at hr
      cases hr
    | some m => exact ⟨m, rfl, by simp [apply, hl, Op.path, hn]⟩

theorem apply_exist_rc (hl : v.live s = true) :
    (v.apply s (.exist q)).2.rc = ZOK ∨ (v.apply s (.exist q)).2.rc = ZNONODE := by
  cases hn : v.nodes q with
  | none => exact Or.inr (by simp [apply, hl, Op.path, hn])
  | some n => exact Or.inl (by simp [apply, hl, Op.path, hn])

theorem apply_rc (hl : v.live s = true) :
    (v.apply s op).2.rc ∈ [ZOK, ZNODEEXISTS, ZNONODE, ZBADARGUMENTS] := by
  simp only [apply, hl, Bool.true_eq_false, if_false]
  split <;> first
    | split <;> simp
    | simp

/-- The server says that a session is gone only when it is. -/
theorem apply_gone (h : (v.apply s op).2.rc = ZSESSIONEXPIRED ∨ (v.apply s op).2.rc = ZINVALIDSTATE) :
    v.live s = false := by
  cases hl : v.live s with
  | false => rfl
  | true =>
    exfalso
    have hrc : (v.apply s op).2.rc ∈ _ := apply_rc hl
    rcases h with h | h <;> rw [h] at hrc <;> revert hrc <;> decide

/-- A refusal is neither a success nor the end of a session, and a create is
never refused with `ZNODEEXISTS`. -/
theorem refusal_rc {rc : Int} (h : op.refusal rc = true) :
    rc ≠ ZOK ∧ rc ≠ ZNODEEXISTS ∧ rc ≠ ZSESSIONEXPIRED ∧ rc ≠ ZINVALIDSTATE := by
  cases op <;> simp_all [Op.refusal]

/-! ## Other clients -/

section
variable {v' : Server} {e : Edit}

/-- Another client makes a persistent node where there is none, or removes one
that is not the root. -/
theorem edit_nodes (h : v.edit e = some v') :
    (∃ path data, e = .make path data ∧ v.nodes path = none ∧ v'.zxid = v.zxid + 1 ∧
      v'.nodes = Function.update v.nodes path (some { data, owner := none, czxid := v.zxid })) ∨
    (∃ path n, e = .remove path ∧ path ≠ rootPath ∧ v.nodes path = some n ∧ n.owner = none ∧
      v'.zxid = v.zxid ∧ v'.nodes = Function.update v.nodes path none) := by
  cases e with
  | make path data =>
    simp only [edit] at h
    split at h
    · rename_i hn
      cases h
      exact Or.inl ⟨path, data, rfl, hn, rfl, rfl⟩
    · cases h
  | remove path =>
    simp only [edit] at h
    split at h
    · rename_i hn
      cases h
      obtain ⟨n, hn', ho⟩ := (Option.any_eq_true _ _).mp hn.2
      exact Or.inr ⟨path, n, rfl, hn.1, hn', by simpa using ho, rfl, rfl⟩
    · cases h

/-- The sessions are nobody else's business. -/
theorem edit_sessions (h : v.edit e = some v') :
    v'.live = v.live ∧ v'.next = v.next ∧ v.zxid ≤ v'.zxid := by
  cases e <;> simp only [edit] at h <;> split at h <;> cases h
  · exact ⟨rfl, rfl, Nat.le_succ _⟩
  · exact ⟨rfl, rfl, Nat.le_refl _⟩

theorem edit_nodes_some (h : v.edit e = some v') (hn : v'.nodes q = some n) :
    v.nodes q = some n ∨ (e = .make q n.data ∧ n.owner = none ∧ n.czxid = v.zxid ∧
      v'.zxid = v.zxid + 1 ∧ v.nodes q = none) := by
  rcases edit_nodes h with ⟨path, data, he, hno, hz, hv⟩ | ⟨path, m, he, _, hm, ho, hz, hv⟩
  · rw [hv] at hn
    by_cases hq : q = path
    · subst hq
      simp only [Function.update_self, Option.some.injEq] at hn
      subst hn
      exact Or.inr ⟨he, rfl, rfl, hz, hno⟩
    · rw [Function.update_of_ne hq] at hn
      exact Or.inl hn
  · rw [hv] at hn
    by_cases hq : q = path
    · subst hq
      simp at hn
    · rw [Function.update_of_ne hq] at hn
      exact Or.inl hn

/-- No ephemeral node goes, and the root stays. -/
theorem edit_keeps (h : v.edit e = some v') (hn : v.nodes q = some n)
    (ho : n.owner ≠ none ∨ q = rootPath) : v'.nodes q = some n := by
  rcases edit_nodes h with ⟨path, data, he, hno, hz, hv⟩ | ⟨path, m, he, hr, hm, ho', hz, hv⟩
  · have hq : q ≠ path := by
      rintro rfl
      rw [hno] at hn
      cases hn
    rw [hv, Function.update_of_ne hq]
    exact hn
  · have hq : q ≠ path := by
      rintro rfl
      rw [hm] at hn
      cases hn
      exact ho.elim (fun h1 => h1 ho') hr
    rw [hv, Function.update_of_ne hq]
    exact hn

theorem Owns.edit {t : Session} (h : v.Owns q t) (he : v.edit e = some v') : v'.Owns q t := by
  obtain ⟨n, hn, ho⟩ := h
  exact ⟨n, edit_keeps he hn (Or.inl (by simp [ho])), ho⟩

end

/-! ## Sessions -/

theorem expire_nodes (h : (v.expire s).nodes q = some n) :
    v.nodes q = some n ∧ n.owner ≠ some s := by
  simp only [expire, Option.filter_eq_some_iff] at h
  exact ⟨h.1, by simpa using h.2⟩

theorem expire_keeps (h : v.nodes q = some n) (hn : n.owner ≠ some s) :
    (v.expire s).nodes q = some n := by
  simp [expire, h, Option.filter, hn]

theorem Owns.expire {t : Session} (h : v.Owns q t) (hne : t ≠ s) : (v.expire s).Owns q t := by
  obtain ⟨n, hn, ho⟩ := h
  exact ⟨n, expire_keeps hn (by rw [ho]; simpa using hne), ho⟩

theorem expire_live {t : Session} (h : (v.expire s).live t = true) : t ≠ s ∧ v.live t = true := by
  simp only [expire] at h
  by_cases ht : t = s
  · subst ht
    simp at h
  · rw [Function.update_of_ne ht] at h
    exact ⟨ht, h⟩

theorem openSession_live {t : Session} (h : t ≠ v.next) : v.openSession.live t = v.live t := by
  simp only [openSession, Function.update_of_ne h]

end Server

end ZookZhubei
