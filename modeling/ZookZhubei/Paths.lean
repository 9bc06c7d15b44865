-- The path that `create_node` puts together. The client checks the whole of
-- it in one scan, which looks one byte ahead and two bytes back. The laws here
-- take that scan apart at the join.
import ZookZhubei.Zookbag

namespace ZookZhubei

/-! ## One turn of the scan -/

/-- A byte that a path may not hold. -/
def isControl (c : UInt8) : Bool := 0 < c && c < 0x1f

/-- What a turn of `isValidPath` lets pass. `next` is the byte after `c`. -/
def admits (back2 lastc c : UInt8) (next : Option UInt8) : Bool :=
  let ends := next == none || next == some slash
  c != 0 && !(c == slash && lastc == slash) &&
    !(c == dot && lastc == dot && back2 == slash && ends) &&
    !(c == dot && lastc == slash && ends) && !isControl c

theorem isValidPathFrom_cons (back2 lastc c : UInt8) (rest : Str) :
    isValidPathFrom false back2 lastc (c :: rest) =
      (admits back2 lastc c rest.head? && isValidPathFrom false lastc c rest) := by
  have hends : (rest.isEmpty && !false || rest.head? == some slash) =
      (rest.head? == none || rest.head? == some slash) := by
    cases rest <;> rfl
  simp only [isValidPathFrom, hends, admits]
  generalize (rest.head? == none || rest.head? == some slash) = ends
  by_cases hd : c = dot
  · subst hd
    have h0 : (dot == 0) = false := rfl
    have h1 : (dot == slash) = false := rfl
    have h2 : isControl dot = false := rfl
    by_cases hl : lastc = dot
    · subst hl
      simp only [h0, h1, h2, beq_self_eq_true]
      cases back2 == slash <;> cases ends <;> rfl
    · simp only [h0, h1, h2, beq_self_eq_true, beq_eq_false_iff_ne.mpr hl]
      cases lastc == slash <;> cases ends <;> rfl
  · simp only [beq_eq_false_iff_ne.mpr hd, isControl]
    cases h0 : c == 0 <;> cases c == slash <;> cases lastc == slash <;>
      cases (decide (0 < c) && decide (c < 31)) <;> simp [bne, h0]

/-- A name ends at the end of the path, or at the next separator. -/
theorem admits_none (back2 lastc c : UInt8) :
    admits back2 lastc c none = admits back2 lastc c (some slash) := rfl

/-- The scan of a joined path is a scan of its two parts. -/
theorem isValidPathFrom_append (N rest : Str) : ∀ back2 lastc : UInt8,
    isValidPathFrom false back2 lastc (rest ++ slash :: N) =
      (isValidPathFrom false back2 lastc rest && rest.getLastD lastc != slash &&
        isValidPathFrom false (rest.getLastD lastc) slash N) := by
  induction rest with
  | nil =>
    intro back2 lastc
    have hturn : admits back2 lastc slash N.head? = (lastc != slash) := by
      simp [admits, isControl, slash, dot, bne]
    rw [List.nil_append, isValidPathFrom_cons, hturn]
    simp [isValidPathFrom]
  | cons c rest ih =>
    intro back2 lastc
    have hturn : admits back2 lastc c (rest ++ slash :: N).head? =
        admits back2 lastc c rest.head? := by
      cases rest with
      | nil => exact (admits_none _ _ _).symm
      | cons _ _ => rfl
    rw [List.cons_append, isValidPathFrom_cons, isValidPathFrom_cons, ih, hturn]
    simp only [List.getLastD_cons, Bool.and_assoc]

/-! ## The last name -/

/-- A byte of a name, other than the dot that would end `.` or `..`. -/
theorem admits_name {back2 lastc c : UInt8} {next : Option UInt8} (h0 : c ≠ 0) (hs : c ≠ slash)
    (hdot : c = dot → (next ≠ none ∧ next ≠ some slash) ∨
      (lastc ≠ slash ∧ ¬ (back2 = slash ∧ lastc = dot))) :
    admits back2 lastc c next = !isControl c := by
  have h0' : (c != 0) = true := by simpa using h0
  have hs' : (c == slash) = false := by simpa using hs
  simp only [admits, h0', hs', Bool.false_and, Bool.not_false, Bool.true_and]
  by_cases hd : c = dot
  · rcases hdot hd with ⟨h1, h2⟩ | ⟨h1, h2⟩
    · have he : (next == none || next == some slash) = false := by
        rw [Bool.or_eq_false_iff, beq_eq_false_iff_ne, beq_eq_false_iff_ne]
        exact ⟨h1, h2⟩
      simp only [he, Bool.and_false, Bool.not_false, Bool.true_and]
    · have h1' : (lastc == slash) = false := by simpa using h1
      have h2' : (lastc == dot && back2 == slash) = false := by
        simp only [Bool.and_eq_false_imp, beq_iff_eq, beq_eq_false_iff_ne]
        exact fun hl hb => h2 ⟨hb, hl⟩
      simp [h1', h2', Bool.and_assoc]
  · have hd' : (c == dot) = false := by simpa using hd
    simp [hd']

/-- Inside a name that is more than two dots, only control bytes are refused. -/
theorem isValidPathFrom_inside {N : Str} (h0 : 0 ∉ N) (hs : slash ∉ N) :
    ∀ {back2 lastc : UInt8}, lastc ≠ slash → ¬ (back2 = slash ∧ lastc = dot) →
      (isValidPathFrom false back2 lastc N = true ↔ ∀ c ∈ N, isControl c = false) := by
  induction N with
  | nil => simp [isValidPathFrom]
  | cons c rest ih =>
    intro back2 lastc hl hd
    simp only [List.mem_cons, not_or] at h0 hs
    rw [isValidPathFrom_cons, admits_name (Ne.symm h0.1) (Ne.symm hs.1) (fun _ => Or.inr ⟨hl, hd⟩),
      Bool.and_eq_true, ih h0.2 hs.2 (Ne.symm hs.1) (fun h => hl h.1)]
    simp

theorem isControl_dot : isControl dot = false := rfl

/-- After a dot at the start of a name. -/
theorem isValidPathFrom_second {d : UInt8} {rest : Str} (h0 : 0 ≠ d ∧ 0 ∉ rest)
    (hs : slash ≠ d ∧ slash ∉ rest) :
    isValidPathFrom false slash dot (d :: rest) = true ↔
      d :: rest ≠ [dot] ∧ isControl d = false ∧ ∀ c ∈ rest, isControl c = false := by
  rw [isValidPathFrom_cons]
  by_cases hend : d = dot ∧ rest = []
  · obtain ⟨rfl, rfl⟩ := hend
    simp [admits]
  · have hmore : d = dot → rest.head? ≠ none ∧ rest.head? ≠ some slash := by
      intro hd
      refine ⟨fun h => hend ⟨hd, List.head?_eq_none_iff.mp h⟩, fun h => hs.2 ?_⟩
      exact List.mem_of_head? h
    rw [admits_name (Ne.symm h0.1) (Ne.symm hs.1) (fun h => Or.inl (hmore h)), Bool.and_eq_true,
      isValidPathFrom_inside h0.2 hs.2 (Ne.symm hs.1) (by simp [slash, dot])]
    simp only [Bool.not_eq_true', ne_eq, List.cons.injEq, hend, not_false_eq_true, true_and]

/-- A name behind a separator is refused when it is `.` or `..`, or holds a
control byte. -/
theorem isValidPathFrom_name {N : Str} (h0 : 0 ∉ N) (hs : slash ∉ N) (back2 : UInt8) :
    isValidPathFrom false back2 slash N = true ↔
      N ≠ [dot] ∧ N ≠ [dot, dot] ∧ ∀ c ∈ N, isControl c = false := by
  have hds : dot ≠ slash := by decide
  match N with
  | [] => simp [isValidPathFrom]
  | [c] =>
    simp only [List.mem_singleton] at h0 hs
    by_cases hc : c = dot
    · subst hc
      simp [isValidPathFrom_cons, admits]
    · rw [isValidPathFrom_cons, admits_name (Ne.symm h0) (Ne.symm hs) (fun h => absurd h hc)]
      simp [isValidPathFrom, hc]
  | c :: d :: rest =>
    simp only [List.mem_cons, not_or] at h0 hs
    have hmore : (d :: rest).head? ≠ none ∧ (d :: rest).head? ≠ some slash :=
      ⟨by simp, by simpa using Ne.symm hs.2.1⟩
    rw [isValidPathFrom_cons, admits_name (Ne.symm h0.1) (Ne.symm hs.1) (fun _ => Or.inl hmore),
      Bool.and_eq_true]
    by_cases hc : c = dot
    · subst hc
      rw [isValidPathFrom_second h0.2 hs.2]
      simp [isControl_dot]
    · rw [isValidPathFrom_inside (by simpa using h0.2) (by simpa using hs.2) (Ne.symm hs.1)
        (fun h => hc h.2)]
      simp [hc]

/-! ## `create_node` -/

def ZOO_PERSISTENT : Int := 0
def ZOO_EPHEMERAL : Int := 1
def ZOO_PERSISTENT_SEQUENTIAL : Int := 2
def ZOO_EPHEMERAL_SEQUENTIAL : Int := 3
def ZOO_PERSISTENT_WITH_TTL : Int := 5
def ZOO_PERSISTENT_SEQUENTIAL_WITH_TTL : Int := 6

def ZOOKEEPER_IS_SEQUENCE (mode : Int) : Bool :=
  mode == ZOO_PERSISTENT_SEQUENTIAL || mode == ZOO_EPHEMERAL_SEQUENTIAL ||
    mode == ZOO_PERSISTENT_SEQUENTIAL_WITH_TTL

def ZOOKEEPER_IS_TTL (mode : Int) : Bool :=
  mode == ZOO_PERSISTENT_WITH_TTL || mode == ZOO_PERSISTENT_SEQUENTIAL_WITH_TTL

/-- An entry of `ACL_vector`: the permissions, the scheme and the id. -/
structure ACL where
  perms : Int
  scheme : Str
  id : Str
deriving DecidableEq, Repr

def ZOO_OPEN_ACL_UNSAFE : List ACL := [{ perms := 0x1f, scheme := str "world", id := str "anyone" }]

/-- The request that goes to the server. -/
structure CreateRequest where
  path : Str
  data : Str
  flags : Int
  acl : List ACL
deriving DecidableEq, Repr

/-- `CreateRequest_init`, or the code with which it refuses. -/
def CreateRequest_init (s : ZooState) (path value : Str) (acl_entries : List ACL) (mode : Int) :
    Except Int CreateRequest :=
  if !isValidPath (ZOOKEEPER_IS_SEQUENCE mode) path then .error ZBADARGUMENTS
  else if is_unrecoverable s then .error ZINVALIDSTATE
  else .ok { path, data := value, flags := mode, acl := acl_entries }

/-- `zoo_acreate_ttl` up to the queue, with the `ttl` of -1 that `zoo_create`
gives. -/
def zoo_acreate (s : ZooState) (path value : Str) (acl_entries : List ACL) (mode : Int) :
    Except Int CreateRequest :=
  if ZOOKEEPER_IS_TTL mode then .error ZBADARGUMENTS
  else CreateRequest_init s path value acl_entries mode

/-- For a plain mode this is the check that every other call makes. -/
theorem zoo_acreate_plain {mode : Int} (hm : mode = 0 ∨ mode = ZOO_EPHEMERAL) (s : ZooState)
    (path value : Str) (acl : List ACL) :
    zoo_acreate s path value acl mode =
      if Request_path_init s path = ZOK then .ok { path, data := value, flags := mode, acl }
      else .error (Request_path_init s path) := by
  have hseq : ZOOKEEPER_IS_SEQUENCE mode = false := by rcases hm with rfl | rfl <;> rfl
  have httl : ZOOKEEPER_IS_TTL mode = false := by rcases hm with rfl | rfl <;> rfl
  have h8 : ZBADARGUMENTS ≠ ZOK := by decide
  have h9 : ZINVALIDSTATE ≠ ZOK := by decide
  simp only [zoo_acreate, CreateRequest_init, Request_path_init, hseq, httl]
  by_cases hv : isValidPath false path = true
  · by_cases hu : is_unrecoverable s = true
    · simp [hv, hu, h9]
    · simp [hv, hu]
  · simp [hv, h8]

/-- `create_node` up to the moment at which the request is sent. The codes with
which the client refuses are not `ZOK`, and the call throws. -/
def create_node_sends (h : Handle) (zk_parent_path zk_node_name zk_node_data : Str) (flags : Int)
    (acl : Option (List ACL)) : Except Exn CreateRequest :=
  let acl_ := acl.getD ZOO_OPEN_ACL_UNSAFE
  let zk_path := nodePath zk_parent_path zk_node_name
  match zoo_acreate h.state zk_path zk_node_data acl_ flags with
  | .ok request => .ok request
  | .error _ => .error (.int 1)

/-- What the contract of `create_node` asks of the parent. -/
def isParent (P : Str) : Prop := P = [] ∨ (isValidPath false P = true ∧ P ≠ [slash])

/-- What the client asks of a name. -/
def isName (N : Str) : Prop :=
  N ≠ [] ∧ N ≠ [dot] ∧ N ≠ [dot, dot] ∧ ∀ c ∈ N, ¬ (0x01 ≤ c ∧ c ≤ 0x1e)

theorem not_isControl_iff {c : UInt8} : isControl c = false ↔ ¬ (0x01 ≤ c ∧ c ≤ 0x1e) := by
  have h1 : (1 : UInt8).toNat = 1 := rfl
  have h2 : (0x1e : UInt8).toNat = 30 := rfl
  have h3 : (0x1f : UInt8).toNat = 31 := rfl
  have h4 : (0 : UInt8).toNat = 0 := rfl
  simp only [isControl, Bool.and_eq_false_iff, decide_eq_false_iff_not, UInt8.lt_iff_toNat_lt,
    UInt8.le_iff_toNat_le, h1, h2, h3, h4]
  omega

theorem isValidPath_root {rest : Str} (h : rest ≠ []) :
    isValidPath false (slash :: rest) =
      (rest.getLastD slash != slash && isValidPathFrom false 0 slash rest) := by
  obtain ⟨a, c, rfl⟩ := (List.eq_nil_or_concat rest).resolve_left h
  rw [List.concat_eq_append] at *
  have hempty : (a ++ [c]).isEmpty = false := by simp
  simp only [isValidPath, bne_self_eq_false, hempty, List.getLast?_concat, List.getLastD_eq_getLast?,
    Option.getD_some, Bool.false_eq_true, if_false, Bool.not_false, Bool.and_true]
  by_cases hc : c = slash
  · simp [hc]
  · simp [hc]

/-- The client takes a joined path exactly when both parts are as the contract
asks. -/
theorem isValidPath_nodePath {P N : Str} (h0 : 0 ∉ N) (hs : slash ∉ N) (hne : P ≠ [] ∨ N ≠ []) :
    isValidPath false (nodePath P N) = true ↔ isParent P ∧ isName N := by
  have hjoin : nodePath P N = P ++ slash :: N := by
    simp [nodePath, show str "/" = [slash] from rfl]
  have hname : N ≠ [] → ∀ back2, isValidPathFrom false back2 slash N = true ↔ isName N := by
    intro hN back2
    simp only [isValidPathFrom_name h0 hs, isName, ne_eq, hN, not_false_eq_true, true_and,
      not_isControl_iff]
  -- the last byte is one of the name, or the separator before an empty name
  have hlast : ∀ rest : Str, (rest ++ slash :: N).getLastD slash = N.getLastD slash := by
    intro rest
    simp [List.getLastD_eq_getLast?, List.getLast?_cons]
  have hfree : N ≠ [] → (N.getLastD slash != slash) = true := by
    intro hN
    rw [bne_iff_ne, List.getLastD_eq_getLast?, List.getLast?_eq_some_getLast hN, Option.getD_some]
    intro he
    exact hs (he ▸ List.getLast_mem hN)
  rw [hjoin]
  match P with
  | [] =>
    have hN : N ≠ [] := by simpa using hne
    rw [List.nil_append, isValidPath_root hN, hfree hN, Bool.true_and, hname hN]
    simp [isParent]
  | p :: rest =>
    by_cases hp : p = slash
    · subst hp
      rw [List.cons_append, isValidPath_root (by simp), hlast, isValidPathFrom_append]
      by_cases hN : N = []
      · subst hN
        simp [isName]
      · rw [hfree hN, Bool.true_and, Bool.and_eq_true, hname hN]
        refine and_congr_left fun _ => ?_
        by_cases hrest : rest = []
        · subst hrest
          simp [isParent]
        · rw [isParent, isValidPath_root hrest]
          simp [hrest, and_comm]
    · simp [isValidPath, isParent, hp]

/-- For every parent and every name, on a handle that can be used: `create_node`
sends a request for the joined path exactly when the parent is empty, or a path
of its own other than the root, and the name is a name. Otherwise it throws,
and sends nothing. -/
theorem create_node_sends_a_joined_path (h : Handle) (P N zk_node_data : Str) (flags : Int)
    (acl : Option (List ACL)) (hh : is_unrecoverable h.state = false)
    (hf : flags = 0 ∨ flags = ZOO_EPHEMERAL) (_hP : 0 ∉ P) (hN : 0 ∉ N) (hs : slash ∉ N)
    (hne : P ≠ [] ∨ N ≠ []) :
    ((∃ request, create_node_sends h P N zk_node_data flags acl = .ok request ∧
        request.path = P ++ str "/" ++ N ∧ request.data = zk_node_data) ↔
      isParent P ∧ isName N) ∧
    (¬ (isParent P ∧ isName N) →
      create_node_sends h P N zk_node_data flags acl = .error (.int 1)) := by
  rw [← isValidPath_nodePath hN hs hne]
  simp only [create_node_sends, zoo_acreate_plain hf]
  by_cases hv : isValidPath false (nodePath P N) = true
  · have hrc : Request_path_init h.state (nodePath P N) = ZOK := by
      simp [Request_path_init, hv, hh]
    simp only [hrc, if_true, hv, not_true_eq_false, false_implies, and_true, iff_true]
    exact ⟨_, rfl, rfl, rfl⟩
  · have hrc : Request_path_init h.state (nodePath P N) = ZBADARGUMENTS := by
      simp [Request_path_init, hv]
    have h8 : ZBADARGUMENTS ≠ ZOK := by decide
    simp [hrc, h8, hv]

/-- The node of `MyApp`, and the same name under a parent that ends in a
separator. -/
theorem create_node_sends_a_joined_path_of_test1 :
    (∃ request, create_node_sends (zookeeper_init 10000) (str "/nodes") (str "test1") (str "123")
        ZOO_EPHEMERAL none = .ok request ∧
      request.path = str "/nodes" ++ str "/" ++ str "test1" ∧ request.data = str "123") ∧
    create_node_sends (zookeeper_init 10000) (str "/nodes/") (str "test1") (str "123")
      ZOO_EPHEMERAL none = .error (.int 1) := by
  constructor
  · refine (create_node_sends_a_joined_path (zookeeper_init 10000) (str "/nodes") (str "test1")
      (str "123") ZOO_EPHEMERAL none rfl (Or.inr rfl) (by decide) (by decide) (by decide)
      (Or.inl (by decide))).1.mpr ⟨Or.inr ⟨by decide, by decide⟩, ?_⟩
    have hall : (str "test1").all (fun c => !isControl c) = true := by decide
    have hname : ∀ c ∈ str "test1", isControl c = false := by simpa using hall
    exact ⟨by decide, by decide, by decide, fun c hc => not_isControl_iff.mp (hname c hc)⟩
  · refine (create_node_sends_a_joined_path (zookeeper_init 10000) (str "/nodes/") (str "test1")
      (str "123") ZOO_EPHEMERAL none rfl (Or.inr rfl) (by decide) (by decide) (by decide)
      (Or.inl (by decide))).2 ?_
    rintro ⟨hP, _⟩
    rcases hP with hP | ⟨hP, _⟩
    · exact absurd hP (by decide)
    · exact absurd hP (by decide)

end ZookZhubei
