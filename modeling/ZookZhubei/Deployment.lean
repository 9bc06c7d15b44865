-- A deployment: any number of processes, one server, the requests on the wire,
-- and other clients. The steps of all of them interleave in any order. A
-- request whose caller saw a connection loss stays on the wire, and the server
-- may still apply it, or never see it.
import ZookZhubei.Runs
import ZookZhubei.Server

namespace ZookZhubei

open Runs

/-- `late` holds the requests on the wire that no caller waits for. `holder`
is the process that each session was opened for; it is there for the
statements only. `now` is `time(NULL)`. -/
structure World (ι : Type) where
  inst : ι → Inst
  srv : Server
  late : List (Session × Op)
  holder : Session → Option ι
  now : Int

inductive Label (ι : Type)
  /-- an action of one process -/
  | act (i : ι) (a : Act)
  /-- the answer to a handshake, with the negotiated timeout -/
  | handshake (i : ι) (timeOut : Int)
  /-- the server applies the request that a thread waits for -/
  | serve (i : ι) (t : Thread)
  /-- the server refuses it -/
  | refuse (i : ι) (t : Thread) (rc : Int)
  /-- the server applies a request that no caller waits for -/
  | late (k : Nat)
  /-- such a request is lost -/
  | drop (k : Nat)
  /-- the server ends a session -/
  | expire (s : Session)
  /-- another client makes or removes a persistent node -/
  | edit (e : Edit)
  | tick (n : Nat)
deriving DecidableEq, Repr

/-- The process whose main thread takes a statement. -/
def Label.runs {ι : Type} : Label ι → Option ι
  | .act i .main => some i
  | _ => none

/-- The session that the server ends. -/
def Label.ends {ι : Type} : Label ι → Option Session
  | .expire s => some s
  | _ => none

/-- The thread whose request the server refuses. -/
def Label.refuses {ι : Type} : Label ι → Option (ι × Thread)
  | .refuse i t _ => some (i, t)
  | _ => none

/-- The node that another client makes. -/
def Label.makes {ι : Type} : Label ι → Option (Str × Str)
  | .edit (.make q d) => some (q, d)
  | _ => none

/-- The requests of the process that are on the wire. -/
def Inst.orphans (c : Config) (x : Inst) : List (Session × Op) :=
  match x.h.client_id with
  | none => []
  | some s => [Thread.main, Thread.completion].filterMap fun t =>
    if x.phase t = some .sent then (x.op c t).map fun op => (s, op) else none

namespace World

variable {ι : Type} [DecidableEq ι]

def start (cfg : ι → Config) (now : Int) : World ι :=
  { inst := fun i => Inst.fresh (cfg i), srv := Server.start, late := [],
    holder := fun _ => none, now }

def setInst (w : World ι) (i : ι) (x : Inst) : World ι :=
  { w with inst := Function.update w.inst i x }

/-- The answer to a handshake. A handle with no session gets a new one. A
handle with a session gets it back, unless the server has ended it. -/
def handshake (w : World ι) (i : ι) (timeOut : Int) : Option (World ι) :=
  let x := w.inst i
  if x.h.state = .associating then
    match x.h.client_id with
    | none =>
      some { w.setInst i { x with h := x.h.established w.srv.next timeOut } with
        srv := w.srv.openSession, holder := Function.update w.holder w.srv.next (some i) }
    | some s =>
      if w.srv.live s then some (w.setInst i { x with h := x.h.established s timeOut })
      else some (w.setInst i x.expire)
  else none

def serve (cfg : ι → Config) (w : World ι) (i : ι) (t : Thread) : Option (World ι) :=
  let x := w.inst i
  match x.phase t, x.h.client_id, x.op (cfg i) t with
  | some .sent, some s, some op =>
    let (srv, r) := w.srv.apply s op
    some { w.setInst i (x.setPhase (.replied r) t) with srv }
  | _, _, _ => none

def refuse (cfg : ι → Config) (w : World ι) (i : ι) (t : Thread) (rc : Int) : Option (World ι) :=
  let x := w.inst i
  match x.phase t, x.h.client_id, x.op (cfg i) t with
  | some .sent, some s, some op =>
    if w.srv.live s ∧ op.refusal rc then some (w.setInst i (x.setPhase (.replied (.err rc)) t))
    else none
  | _, _, _ => none

def step (cfg : ι → Config) (w : World ι) : Label ι → Option (World ι)
  | .act i a =>
    ((w.inst i).step (cfg i) w.now a).map fun x' =>
      { w.setInst i x' with
        late := w.late ++ if a.drops then (w.inst i).orphans (cfg i) else [] }
  | .handshake i timeOut => w.handshake i timeOut
  | .serve i t => w.serve cfg i t
  | .refuse i t rc => w.refuse cfg i t rc
  | .late k => match w.late[k]? with
    | some (s, op) => some { w with srv := (w.srv.apply s op).1, late := w.late.eraseIdx k }
    | none => none
  | .drop k => if k < w.late.length then some { w with late := w.late.eraseIdx k } else none
  | .expire s => if w.srv.live s then some { w with srv := w.srv.expire s } else none
  | .edit e => (w.srv.edit e).map fun srv => { w with srv }
  | .tick n => some { w with now := w.now + n }

/-- The deployment with the configurations `cfg`. -/
def system (cfg : ι → Config) : System (World ι) (Label ι) where
  start w := ∃ now, w = start cfg now
  step := step cfg

/-! ## Pieces of a schedule -/

/-- The values of `STG.ini`, with `ZK_DATA` and `ZK_NODE_NAME` open. -/
def ini (ZK_DATA ZK_NODE_NAME : Str) : Config :=
  { master_path := str "/master", master_data := ZK_DATA, zk_parent_path := str "/nodes",
    zk_node_name := ZK_NODE_NAME, zk_node_data := str "123", zk_nodes := str "127.0.0.1:2181",
    session_timeout_seconds := 10 }

/-- A handle connects. -/
def connects (i : ι) : List (Label ι) := [.act i .dial, .act i .prime, .handshake i 10000]

/-- The main thread makes a call, up to its result in the caller. -/
def calls (i : ι) : List (Label ι) :=
  [.act i .main, .act i .main, .act i (.send .main), .serve i .main, .act i (.receive .main),
    .act i .main]

/-- The callback of a new connection, from its event to its end. -/
def registers (i : ι) : List (Label ι) :=
  [.act i .completion, .act i .completion, .act i .completion, .act i (.send .completion),
    .serve i .completion, .act i (.receive .completion), .act i .completion]

/-- A master and its standby: `zk_1` and `zk_2`. -/
def pair (i : Bool) : Config :=
  if i then ini (str "zk_2") (str "test2") else ini zk_1 (str "test1")

/-! ## What a step can do -/

/-- Every case of `step`, with its guard. -/
inductive Trans (cfg : ι → Config) (w : World ι) : Label ι → World ι → Prop
  | act (i : ι) (a : Act) (x' : Inst) :
      (w.inst i).step (cfg i) w.now a = some x' →
      Trans cfg w (.act i a) { w.setInst i x' with
        late := w.late ++ if a.drops then (w.inst i).orphans (cfg i) else [] }
  | opened (i : ι) (timeOut : Int) :
      (w.inst i).h.state = .associating → (w.inst i).h.client_id = none →
      Trans cfg w (.handshake i timeOut)
        { w.setInst i { w.inst i with h := (w.inst i).h.established w.srv.next timeOut } with
          srv := w.srv.openSession, holder := Function.update w.holder w.srv.next (some i) }
  | reattached (i : ι) (timeOut : Int) (s : Session) :
      (w.inst i).h.state = .associating → (w.inst i).h.client_id = some s →
      w.srv.live s = true →
      Trans cfg w (.handshake i timeOut)
        (w.setInst i { w.inst i with h := (w.inst i).h.established s timeOut })
  | expired (i : ι) (timeOut : Int) (s : Session) :
      (w.inst i).h.state = .associating → (w.inst i).h.client_id = some s →
      w.srv.live s = false → Trans cfg w (.handshake i timeOut) (w.setInst i (w.inst i).expire)
  | served (i : ι) (t : Thread) (s : Session) (op : Op) :
      (w.inst i).phase t = some .sent → (w.inst i).h.client_id = some s →
      (w.inst i).op (cfg i) t = some op →
      Trans cfg w (.serve i t)
        { w.setInst i ((w.inst i).setPhase (.replied (w.srv.apply s op).2) t) with
          srv := (w.srv.apply s op).1 }
  | refused (i : ι) (t : Thread) (rc : Int) (s : Session) (op : Op) :
      (w.inst i).phase t = some .sent → (w.inst i).h.client_id = some s →
      (w.inst i).op (cfg i) t = some op → w.srv.live s = true → op.refusal rc = true →
      Trans cfg w (.refuse i t rc) (w.setInst i ((w.inst i).setPhase (.replied (.err rc)) t))
  | late (k : Nat) (s : Session) (op : Op) :
      w.late[k]? = some (s, op) →
      Trans cfg w (.late k) { w with srv := (w.srv.apply s op).1, late := w.late.eraseIdx k }
  | dropped (k : Nat) : k < w.late.length →
      Trans cfg w (.drop k) { w with late := w.late.eraseIdx k }
  | ended (s : Session) : w.srv.live s = true →
      Trans cfg w (.expire s) { w with srv := w.srv.expire s }
  | edited (e : Edit) (v : Server) : w.srv.edit e = some v →
      Trans cfg w (.edit e) { w with srv := v }
  | tick (n : Nat) : Trans cfg w (.tick n) { w with now := w.now + n }

theorem step_trans {cfg : ι → Config} {w w' : World ι} {l : Label ι}
    (h : w.step cfg l = some w') : Trans cfg w l w' := by
  cases l with
  | act i a =>
    simp only [step, Option.map_eq_some_iff] at h
    obtain ⟨x', hx, rfl⟩ := h
    exact .act i a x' hx
  | handshake i timeOut =>
    simp only [step, handshake] at h
    split at h
    · rename_i hs
      split at h
      · rename_i hc
        cases h
        exact .opened i timeOut hs hc
      · rename_i s hc
        split at h
        · rename_i hl
          cases h
          exact .reattached i timeOut s hs hc hl
        · rename_i hl
          cases h
          exact .expired i timeOut s hs hc (by simpa using hl)
    · cases h
  | serve i t =>
    simp only [step, serve] at h
    split at h
    · rename_i s op hp hc ho
      cases h
      exact .served i t s op hp hc ho
    · cases h
  | refuse i t rc =>
    simp only [step, refuse] at h
    split at h
    · rename_i s op hp hc ho
      split at h
      · rename_i hr
        cases h
        exact .refused i t rc s op hp hc ho hr.1 hr.2
      · cases h
    · cases h
  | late k =>
    simp only [step] at h
    split at h
    · rename_i s op hk
      cases h
      exact .late k s op hk
    · cases h
  | drop k =>
    simp only [step] at h
    split at h
    · rename_i hk
      cases h
      exact .dropped k hk
    · cases h
  | expire s =>
    simp only [step] at h
    split at h
    · rename_i hl
      cases h
      exact .ended s hl
    · cases h
  | edit e =>
    simp only [step, Option.map_eq_some_iff] at h
    obtain ⟨v, hv, rfl⟩ := h
    exact .edited e v hv
  | tick n =>
    cases h
    exact .tick n

theorem Trans.step {cfg : ι → Config} {w w' : World ι} {l : Label ι} (h : Trans cfg w l w') :
    w.step cfg l = some w' := by
  cases h with
  | act i a x' hx => simp [World.step, hx]
  | opened i timeOut hs hc => simp [World.step, handshake, hs, hc]
  | reattached i timeOut s hs hc hl => simp [World.step, handshake, hs, hc, hl]
  | expired i timeOut s hs hc hl => simp [World.step, handshake, hs, hc, hl]
  | served i t s op hp hc ho => simp [World.step, serve, hp, hc, ho]
  | late k s op hk => simp [World.step, hk]
  | dropped k hk => simp [World.step, hk]
  | refused i t rc s op hp hc ho hl hr => simp [World.step, refuse, hp, hc, ho, hl, hr]
  | ended s hl => simp [World.step, hl]
  | edited e v hv => simp [World.step, hv]
  | tick n => rfl

theorem Trans.reach {cfg : ι → Config} {w w' : World ι} {l : Label ι} (h : Trans cfg w l w')
    (hw : (system cfg).Reach w) : (system cfg).Reach w' :=
  System.Reach.step (M := system cfg) hw h.step

@[simp] theorem setInst_self (w : World ι) (i : ι) (x : Inst) : (w.setInst i x).inst i = x := by
  simp [setInst]

@[simp] theorem setInst_srv (w : World ι) (i : ι) (x : Inst) : (w.setInst i x).srv = w.srv := rfl

theorem setInst_ne (w : World ι) {i j : ι} (x : Inst) (h : j ≠ i) :
    (w.setInst i x).inst j = w.inst j := by
  simp [setInst, h]

/-- What a change of `j` does not bring about held of `i` before it. -/
theorem inst_of_setInst (w : World ι) {i j : ι} {x' : Inst} {Q : Inst → Prop}
    (h : Q ((w.setInst j x').inst i)) (hx : Q x' → Q (w.inst j)) : Q (w.inst i) := by
  by_cases hij : i = j
  · subst hij
    rw [setInst_self] at h
    exact hx h
  · rw [setInst_ne w x' hij] at h
    exact h

/-- A fact about one process that its own actions keep, and that no answer of
the server can break, survives the step. -/
theorem step_inst {cfg : ι → Config} {i : ι} {P : Inst → Prop} {w w' : World ι} {l : Label ι}
    (hact : ∀ a x', l = .act i a → P (w.inst i) →
      (w.inst i).step (cfg i) w.now a = some x' → P x')
    (hest : ∀ x s timeOut, P x → x.h.state = .associating →
      P { x with h := x.h.established s timeOut })
    (hexp : ∀ timeOut s, l = .handshake i timeOut → P (w.inst i) →
      (w.inst i).h.state = .associating → (w.inst i).h.client_id = some s →
      w.srv.live s = false → P (w.inst i).expire)
    (hserve : ∀ x t r, P x → x.phase t = some .sent → P (x.setPhase (.replied r) t))
    (hw : P (w.inst i)) (hs : w.step cfg l = some w') : P (w'.inst i) := by
  have hset : ∀ j x', (j = i → P x') → P ((w.setInst j x').inst i) := by
    intro j x' hx
    by_cases hij : j = i
    · subst hij
      rw [setInst_self]
      exact hx rfl
    · rw [setInst_ne w x' (Ne.symm hij)]
      exact hw
  cases step_trans hs with
  | act j a x' hx => exact hset j x' fun hij => by subst hij; exact hact a x' rfl hw hx
  | opened j timeOut ha _ => exact hset j _ fun hij => by subst hij; exact hest _ _ _ hw ha
  | reattached j timeOut s ha _ _ => exact hset j _ fun hij => by subst hij; exact hest _ _ _ hw ha
  | expired j timeOut s ha hc hl =>
    exact hset j _ fun hij => by subst hij; exact hexp timeOut s rfl hw ha hc hl
  | served j t s op hp _ _ | refused j t rc s op hp _ _ _ _ =>
    exact hset j _ fun hij => by subst hij; exact hserve _ t _ hw hp
  | late k s op _ => exact hw
  | dropped k _ => exact hw
  | ended s _ => exact hw
  | edited e v _ => exact hw
  | tick n => exact hw

/-- It holds in every run of every deployment whose steps meet `G`. -/
theorem reachBy_inst {cfg : ι → Config} {i : ι} {P : Inst → Prop} {G : World ι → Label ι → Prop}
    (hfresh : P (Inst.fresh (cfg i)))
    (hact : ∀ w a x', P (w.inst i) → G w (.act i a) →
      (w.inst i).step (cfg i) w.now a = some x' → P x')
    (hest : ∀ x s timeOut, P x → x.h.state = .associating →
      P { x with h := x.h.established s timeOut })
    (hexp : ∀ (w : World ι) timeOut s, P (w.inst i) → G w (.handshake i timeOut) →
      (w.inst i).h.state = .associating → (w.inst i).h.client_id = some s →
      w.srv.live s = false → P (w.inst i).expire)
    (hserve : ∀ x t r, P x → x.phase t = some .sent → P (x.setPhase (.replied r) t))
    {w : World ι} (h : (system cfg).ReachBy G w) : P (w.inst i) := by
  apply System.ReachBy.invariant (P := fun w => P (w.inst i)) _ _ h
  · rintro w ⟨now, rfl⟩
    exact hfresh
  · intro w l w' hw hg hs
    refine step_inst ?_ hest ?_ hserve hw hs
    · rintro a x' rfl hp hx
      exact hact w a x' hp hg hx
    · rintro timeOut s rfl hp ha hc hl
      exact hexp w timeOut s hp hg ha hc hl

/-- The same for all runs. -/
theorem reach_inst {cfg : ι → Config} {i : ι} {P : Inst → Prop} (hfresh : P (Inst.fresh (cfg i)))
    (hact : ∀ now x a x', P x → x.step (cfg i) now a = some x' → P x')
    (hest : ∀ x s timeOut, P x → x.h.state = .associating →
      P { x with h := x.h.established s timeOut })
    (hexp : ∀ x, P x → x.h.state = .associating → P x.expire)
    (hserve : ∀ x t r, P x → x.phase t = some .sent → P (x.setPhase (.replied r) t))
    {w : World ι} (h : (system cfg).Reach w) : P (w.inst i) :=
  reachBy_inst hfresh (fun w a x' hp _ hs => hact w.now _ a x' hp hs) hest
    (fun _ _ _ hp _ ha _ _ => hexp _ hp ha) hserve h

end World

end ZookZhubei
