-- A handle with a chroot puts it in front of every path that it sends, and takes
-- it off every path that comes back. The check of a path sees only the whole.
import ZookZhubei.Paths

namespace ZookZhubei

/-! ## The chroot of a handle -/

/-- The part of `zookeeper_init` that cuts `host` in two: the chroot and the list of the
servers. `none` is `EINVAL`. -/
def init_host (host : Str) : Option (Option Str × Str) :=
  if host = [] then none
  else
    let hostname := host.takeWhile (· ≠ slash)
    match host.dropWhile (· ≠ slash) with
    | [] => some (none, hostname)
    | [_] => some (none, hostname)
    | index_chroot =>
      if isValidPath false index_chroot then some (some index_chroot, hostname) else none

def prepend_string (chroot : Option Str) (client_path : Str) : Str :=
  match chroot with
  | none => client_path
  | some chroot => if client_path.length = 1 then chroot else chroot ++ client_path

def sub_string (chroot : Option Str) (server_path : Str) : Str :=
  match chroot with
  | none => server_path
  | some chroot =>
    if chroot.isPrefixOf server_path then
      if server_path.length = chroot.length then [slash] else server_path.drop chroot.length
    else server_path

/-- `Request_path_init` of a handle with a chroot, and the path of the request. -/
def Request_path_out (chroot : Option Str) (seq : Bool) (s : ZooState) (path : Str) : Except Int Str :=
  let path_out := prepend_string chroot path
  if !isValidPath seq path_out then .error ZBADARGUMENTS
  else if is_unrecoverable s then .error ZINVALIDSTATE
  else .ok path_out

theorem Request_path_out_none (s : ZooState) (path : Str) :
    Request_path_out none false s path =
      if Request_path_init s path = ZOK then .ok path else .error (Request_path_init s path) := by
  have h8 : ZBADARGUMENTS ≠ ZOK := by decide
  have h9 : ZINVALIDSTATE ≠ ZOK := by decide
  unfold Request_path_out Request_path_init prepend_string
  by_cases hv : isValidPath false path = true
  · by_cases hu : is_unrecoverable s = true
    · simp [hv, hu, h9]
    · simp [hv, hu]
  · simp [hv, h8]

structure isChroot (c : Str) : Prop where
  valid : isValidPath false c = true
  long : 1 < c.length

theorem isChroot_of_init_host {host hostname c : Str} (h : init_host host = some (some c, hostname)) :
    isChroot c := by
  unfold init_host at h
  split at h
  · cases h
  · split at h
    · cases h
    · cases h
    · next hnil hone =>
      split at h
      · next hv =>
        cases h
        refine ⟨hv, ?_⟩
        match hd : host.dropWhile (· ≠ slash) with
        | [] => exact absurd hd hnil
        | [a] => exact absurd hd (hone a)
        | _ :: _ :: _ => simp
      · cases h

/-! ## The check at the join -/

theorem isValidPathFrom_more (seq : Bool) (back2 lastc c : UInt8) {rest : Str} (h : rest ≠ []) :
    isValidPathFrom seq back2 lastc (c :: rest) =
      (admits back2 lastc c rest.head? && isValidPathFrom seq lastc c rest) := by
  have hne : rest.isEmpty = false := by simp [h]
  have hhead : (rest.head? == none) = false := by simp [h]
  simp only [isValidPathFrom, admits, isControl, hne, hhead, Bool.false_and, Bool.false_or]
  generalize isValidPathFrom seq lastc c rest = k
  generalize (rest.head? == some slash) = ends
  by_cases hd : c = dot
  · subst hd
    have h0 : (dot == 0) = false := rfl
    have h1 : (dot == slash) = false := rfl
    have h2 : (decide (0 < dot) && decide (dot < 31)) = false := rfl
    by_cases hl : lastc = dot
    · subst hl
      simp only [h0, h1, h2, beq_self_eq_true]
      cases back2 == slash <;> cases ends <;> simp [bne, h0]
    · simp only [h0, h1, h2, beq_self_eq_true, beq_eq_false_iff_ne.mpr hl]
      cases lastc == slash <;> cases ends <;> simp [bne, h0]
  · simp only [beq_eq_false_iff_ne.mpr hd]
    cases h0 : c == 0 <;> cases c == slash <;> cases lastc == slash <;>
      cases (decide (0 < c) && decide (c < 31)) <;> simp [bne, h0]

/-- The chroot is checked as at the end of a path, also in a sequential mode: a separator
follows it. -/
theorem isValidPathFrom_join (seq : Bool) (N rest : Str) : ∀ back2 lastc : UInt8,
    isValidPathFrom seq back2 lastc (rest ++ slash :: N) =
      (isValidPathFrom false back2 lastc rest && rest.getLastD lastc != slash &&
        isValidPathFrom seq (rest.getLastD lastc) slash N) := by
  induction rest with
  | nil =>
    intro back2 lastc
    have h1 : (slash == 0) = false := rfl
    have h2 : (slash == dot) = false := rfl
    have h3 : (decide (0 < slash) && decide (slash < 31)) = false := rfl
    simp only [List.nil_append, isValidPathFrom, h1, h2, h3, beq_self_eq_true, List.getLastD_nil]
    cases h : lastc == slash <;> simp [bne, h]
  | cons c rest ih =>
    intro back2 lastc
    have hturn : admits back2 lastc c (rest ++ slash :: N).head? =
        admits back2 lastc c rest.head? := by
      cases rest with
      | nil => exact (admits_none _ _ _).symm
      | cons _ _ => rfl
    rw [List.cons_append, isValidPathFrom_more _ _ _ _ (by simp), isValidPathFrom_cons, ih, hturn]
    simp only [List.getLastD_cons, Bool.and_assoc]

/-- Behind a separator the byte before it makes no difference. -/
theorem isValidPathFrom_slash (seq : Bool) (back2 back2' : UInt8) (N : Str) :
    isValidPathFrom seq back2 slash N = isValidPathFrom seq back2' slash N := by
  have h : (slash == dot) = false := rfl
  cases N with
  | nil => rfl
  | cons c rest => simp only [isValidPathFrom, h, Bool.and_false, Bool.false_eq_true, if_false]

theorem isValidPathFrom_seq (rest : Str) : ∀ back2 lastc : UInt8,
    isValidPathFrom false back2 lastc rest = true → isValidPathFrom true back2 lastc rest = true := by
  induction rest with
  | nil => exact fun _ _ h => h
  | cons c rest ih =>
    intro back2 lastc h
    by_cases hr : rest = []
    · subst hr
      simp only [isValidPathFrom] at h ⊢
      split_ifs at h ⊢ <;> simp_all
    · rw [isValidPathFrom_more _ _ _ _ hr, Bool.and_eq_true] at h ⊢
      exact ⟨h.1, ih _ _ h.2⟩

section
variable {c : Str}

/-- A chroot is a separator and at least one more byte, and ends in no separator. -/
theorem isChroot.cut (hc : isChroot c) :
    ∃ r, c = slash :: r ∧ r ≠ [] ∧ r.getLastD slash ≠ slash ∧
      isValidPathFrom false 0 slash r = true := by
  obtain ⟨hv, hl⟩ := hc
  cases c with
  | nil => cases hv
  | cons a r =>
    have hr : r ≠ [] := by
      rintro rfl
      simp at hl
    have ha : a = slash := by
      by_contra ha
      simp [isValidPath, ha] at hv
    subst ha
    rw [isValidPath_root hr, Bool.and_eq_true, bne_iff_ne] at hv
    exact ⟨r, rfl, hr, hv.1, hv.2⟩

theorem isValidPath_chroot (hc : isChroot c) (seq : Bool) : isValidPath seq c = true := by
  cases seq with
  | false => exact hc.valid
  | true =>
    obtain ⟨r, rfl, hr, -, hfrom⟩ := hc.cut
    have hempty : r.isEmpty = false := by simp [hr]
    simp only [isValidPath, bne_self_eq_false, hempty, Bool.not_true, Bool.and_false,
      Bool.false_eq_true, if_false]
    exact isValidPathFrom_seq r 0 slash hfrom

/-- In front of an absolute path, the chroot changes nothing about the check. -/
theorem isValidPath_join (hc : isChroot c) (seq : Bool) {q : Str} (hq : q ≠ []) :
    isValidPath seq (c ++ slash :: q) = isValidPath seq (slash :: q) := by
  obtain ⟨r, rfl, hr, hlast, hfrom⟩ := hc.cut
  have hempty : (r ++ slash :: q).isEmpty = false := by simp
  have hempty' : q.isEmpty = false := by simp [hq]
  have hend : (r ++ slash :: q).getLast? = q.getLast? := by
    rw [List.getLast?_append, List.getLast?_cons]
    simp [List.getLast?_eq_some_getLast hq]
  have hlast' : (r.getLastD slash != slash) = true := bne_iff_ne.mpr hlast
  simp only [isValidPath, List.cons_append, bne_self_eq_false, hempty, hempty', hend,
    isValidPathFrom_join, hfrom, hlast', Bool.and_self, Bool.true_and,
    isValidPathFrom_slash seq (r.getLastD slash) 0]

/-! ## Through the chroot and back -/

/-- The node `c`, or one below it. -/
def Under (c path : Str) : Prop := path = c ∨ ∃ q, path = c ++ slash :: q

/-- What stands behind the chroot comes back, if anything does. -/
theorem sub_string_append (c : Str) {tail : Str} (h : tail ≠ []) :
    sub_string (some c) (c ++ tail) = tail := by
  have hlen : (c ++ tail).length ≠ c.length := by
    have hpos := List.length_pos_iff.mpr h
    rw [List.length_append]
    omega
  simp only [sub_string, List.isPrefixOf_iff_prefix, List.prefix_append, if_true, if_neg hlen,
    List.drop_left]

theorem sub_string_self (c : Str) : sub_string (some c) c = [slash] := by
  simp [sub_string]

theorem Request_path_out_ok {chroot : Option Str} {seq : Bool} {s : ZooState} {path out : Str} :
    Request_path_out chroot seq s path = .ok out ↔
      prepend_string chroot path = out ∧ isValidPath seq (prepend_string chroot path) = true ∧
        is_unrecoverable s = false := by
  unfold Request_path_out
  by_cases hv : isValidPath seq (prepend_string chroot path) = true
  · by_cases hu : is_unrecoverable s = true
    · simp [hv, hu]
    · simp [hv, hu]
  · simp [hv]

theorem isValidPath_prepend_string (hc : isChroot c) (seq : Bool) (q : Str) :
    isValidPath seq (prepend_string (some c) (slash :: q)) = isValidPath seq (slash :: q) := by
  by_cases hq : q = []
  · subst hq
    exact (isValidPath_chroot hc seq).trans rfl
  · have hlen : ¬ (slash :: q).length = 1 := by simpa using hq
    simp only [prepend_string, if_neg hlen]
    exact isValidPath_join hc seq hq

theorem head_of_isValidPath {seq : Bool} {path : Str} (h : isValidPath seq path = true) :
    path.head? = some slash := by
  cases path with
  | nil => cases h
  | cons a q =>
    by_contra ha
    rw [List.head?_cons, Option.some.injEq] at ha
    simp [isValidPath, ha] at h

/-- The path of a request for `path`, with a number behind it. -/
theorem under_prepend_string (q number : Str) :
    (sub_string (some c) (prepend_string (some c) (slash :: q) ++ number) = slash :: q ++ number ∧
      Under c (prepend_string (some c) (slash :: q) ++ number)) ↔ (q = [] → number = []) := by
  by_cases hq : q = []
  · subst hq
    have hroot : prepend_string (some c) [slash] = c := rfl
    rw [hroot]
    by_cases hn : number = []
    · subst hn
      rw [List.append_nil, sub_string_self]
      simp [Under]
    · rw [sub_string_append c hn]
      simp [hn]
  · have hlen : ¬ (slash :: q).length = 1 := by simpa using hq
    have hout : prepend_string (some c) (slash :: q) ++ number = c ++ slash :: (q ++ number) := by
      simp only [prepend_string, if_neg hlen, List.append_assoc, List.cons_append]
    rw [hout, sub_string_append c (List.cons_ne_nil _ _)]
    simp only [List.cons_append, true_and, hq, false_implies, iff_true]
    exact .inr ⟨_, rfl⟩

/-- Which paths do not notice the chroot. A path that starts with a separator is refused
with it exactly when it is refused without it. A path that is taken would be taken
without it, comes back as it went, with whatever number the server puts behind it, and
stays under the chroot exactly when it starts with a separator, and is not the root with
a number behind it. -/
theorem a_chroot_is_invisible_iff {host hostname : Str} (h : init_host host = some (some c, hostname))
    (seq : Bool) (s : ZooState) (path number : Str) :
    (path.head? = some slash → ∀ rc, Request_path_out (some c) seq s path = .error rc ↔
      Request_path_out none seq s path = .error rc) ∧
    ∀ out, Request_path_out (some c) seq s path = .ok out →
      ((Request_path_out none seq s path = .ok path ∧
          sub_string (some c) (out ++ number) = path ++ number ∧ Under c (out ++ number)) ↔
        path.head? = some slash ∧ (path = [slash] → number = [])) := by
  have hc := isChroot_of_init_host h
  refine ⟨fun hhead rc => ?_, fun out hout => ?_⟩
  · obtain ⟨q, rfl⟩ := List.head?_eq_some_iff.mp hhead
    have hnone : prepend_string none (slash :: q) = slash :: q := rfl
    simp only [Request_path_out, isValidPath_prepend_string hc seq q, hnone]
    split_ifs <;> simp
  · obtain ⟨rfl, hv, hs⟩ := Request_path_out_ok.mp hout
    by_cases hhead : path.head? = some slash
    · obtain ⟨q, rfl⟩ := List.head?_eq_some_iff.mp hhead
      rw [isValidPath_prepend_string hc seq q] at hv
      have hnone : Request_path_out none seq s (slash :: q) = .ok (slash :: q) :=
        Request_path_out_ok.mpr ⟨rfl, hv, hs⟩
      have hroot : slash :: q = [slash] ↔ q = [] := by simp
      rw [under_prepend_string, hroot]
      exact and_congr_left fun _ => iff_of_true hnone hhead
    · refine iff_of_false (fun hl => hhead ?_) fun hr => hhead hr.1
      exact head_of_isValidPath (Request_path_out_ok.mp hl.1).2.1

/-- A numbered node in the root of a handle for `/app` is made beside `/app`. -/
theorem a_numbered_root_leaves_its_chroot :
    Request_path_out (some (str "/app")) true .connected (str "/") = .ok (str "/app") ∧
      ¬ (Request_path_out none true .connected (str "/") = .ok (str "/") ∧
        sub_string (some (str "/app")) (str "/app" ++ str "0000000007") = str "/" ++ str "0000000007" ∧
        Under (str "/app") (str "/app" ++ str "0000000007")) := by
  have hhost : init_host (str "10.0.0.1:2181/app") = some (some (str "/app"), str "10.0.0.1:2181") := by
    decide
  have hout : Request_path_out (some (str "/app")) true .connected (str "/") = .ok (str "/app") := by
    decide
  refine ⟨hout, fun hinv => ?_⟩
  have hiff := (a_chroot_is_invisible_iff hhost true .connected (str "/") (str "0000000007")).2 _ hout
  exact absurd ((hiff.mp hinv).2 rfl) (by decide)

end

end ZookZhubei
