-- The watches of a handle, in three tables of `zk_hashtable.c`. A watch is set by
-- the reply to a request, taken by the first event that concerns it, and named
-- again to the next server after a handshake.
import ZookZhubei.Hashtable
import ZookZhubei.Jute
import ZookZhubei.Completions
import ZookZhubei.Watcher

namespace ZookZhubei

open Codec Runs

/-! ## The model -/

def CREATED_EVENT_DEF : Int := 1
def DELETED_EVENT_DEF : Int := 2
def CHANGED_EVENT_DEF : Int := 3
def CHILD_EVENT_DEF : Int := 4
def ZOO_SETWATCHES_OP : Int := 101

/-- `watcher_object_t`: two pointers, of which `watcher` may be null. -/
structure WatcherObject where
  watcher : Nat
  context : Nat
deriving DecidableEq, Repr

/-- The characters are signed. -/
def string_hash_djb2 (str : Str) : UInt32 :=
  str.foldl (fun hash c => ((hash <<< 5) + hash) + c.toInt8.toInt32.toUInt32) 5381

/-- `zk_hashtable`: the watchers of a path, which is the text of a C string. -/
abbrev ZkHashtable := Hashtable Str (List WatcherObject)

def create_zk_hashtable : ZkHashtable := (create_hashtable 32).get rfl

def ZkHashtable.search (ht : ZkHashtable) (path : Str) : Option (List WatcherObject) :=
  hashtable_search string_hash_djb2 ht path

/-- The head of a list, unless it is in the list already. -/
def add_to_list (wl : List WatcherObject) (wo : WatcherObject) : List WatcherObject :=
  if wo ∈ wl then wl else wo :: wl

def do_insert_watcher_object (ht : ZkHashtable) (path : Str) (wo : WatcherObject) : ZkHashtable :=
  match ht.search path with
  | none => hashtable_insert string_hash_djb2 ht path [wo]
  | some wl => hashtable_write string_hash_djb2 ht path (add_to_list wl wo)

def copy_watchers (source dest : List WatcherObject) : List WatcherObject :=
  source.foldl add_to_list dest

def copy_table (ht : ZkHashtable) (dest : List WatcherObject) : List WatcherObject :=
  if ht.entrycount = 0 then dest
  else (visit ht (hashtable_iterator ht)).foldl (fun dest e => copy_watchers e.v dest) dest

inductive WatchKind
  | node
  | exist
  | child
deriving DecidableEq, Repr

/-- What a `zhandle_t` has of the watches. `watcher` is the one of `zookeeper_init`. -/
structure Watches where
  active_node_watchers : ZkHashtable
  active_exist_watchers : ZkHashtable
  active_child_watchers : ZkHashtable
  watcher : WatcherObject

def Watches.table (zh : Watches) : WatchKind → ZkHashtable
  | .node => zh.active_node_watchers
  | .exist => zh.active_exist_watchers
  | .child => zh.active_child_watchers

def Watches.setTable (zh : Watches) (kind : WatchKind) (ht : ZkHashtable) : Watches :=
  match kind with
  | .node => { zh with active_node_watchers := ht }
  | .exist => { zh with active_exist_watchers := ht }
  | .child => { zh with active_child_watchers := ht }

def collect_session_watchers (zh : Watches) (list : List WatcherObject) : List WatcherObject :=
  copy_table zh.active_child_watchers
    (copy_table zh.active_exist_watchers (copy_table zh.active_node_watchers list))

/-- The watchers of a path go over to the list, and the path leaves the table. -/
def add_for_event (kind : WatchKind) (path : Str) (s : List WatcherObject × Watches) :
    List WatcherObject × Watches :=
  match hashtable_remove string_hash_djb2 (s.2.table kind) path with
  | (none, ht) => (s.1, s.2.setTable kind ht)
  | (some wl, ht) => (copy_watchers wl s.1, s.2.setTable kind ht)

/-- The tables that `collectWatchers` looks in, in its order. -/
def eventKinds (type : Int) : List WatchKind :=
  if type = CREATED_EVENT_DEF ∨ type = CHANGED_EVENT_DEF then [.node, .exist]
  else if type = CHILD_EVENT_DEF then [.child]
  else if type = DELETED_EVENT_DEF then [.node, .exist, .child]
  else []

def collectWatchers (zh : Watches) (type : Int) (path : Str) : List WatcherObject × Watches :=
  if type = ZOO_SESSION_EVENT then (collect_session_watchers zh (add_to_list [] zh.watcher), zh)
  else (eventKinds type).foldl (fun s kind => add_for_event kind path s) ([], zh)

/-- The functions that choose the table for the answer to a request. -/
inductive ResultChecker
  | exists_result_checker
  | data_result_checker
  | child_result_checker
deriving DecidableEq, Repr

def ResultChecker.kind (rc : Int) : ResultChecker → Option WatchKind
  | .exists_result_checker =>
    if rc = ZOK then some .node else if rc = ZNONODE then some .exist else none
  | .data_result_checker => if rc = ZOK then some .node else none
  | .child_result_checker => if rc = ZOK then some .child else none

def activateWatcher (zh : Watches) (checker : ResultChecker) (path : Str) (wo : WatcherObject)
    (rc : Int) : Watches :=
  match checker.kind rc with
  | none => zh
  | some kind => zh.setTable kind (do_insert_watcher_object (zh.table kind) path wo)

/-- It looks at the entries behind the head first, and at the head after that. -/
def removeWatcherFromList (wo : WatcherObject) : List WatcherObject → List WatcherObject
  | [] => []
  | head :: tail => if head = wo then tail.erase wo else head :: tail.erase wo

/-- A null `watcher` stands for all of them. -/
def removeWatcher (path : Str) (wo : WatcherObject) (ht : ZkHashtable) : ZkHashtable :=
  match ht.search path with
  | none => ht
  | some wl =>
    if wo.watcher = 0 then (hashtable_remove string_hash_djb2 ht path).2
    else
      let wl := removeWatcherFromList wo wl
      let ht := hashtable_write string_hash_djb2 ht path wl
      if wl = [] then (hashtable_remove string_hash_djb2 ht path).2 else ht

inductive ZooWatcherType
  | ZWATCHTYPE_CHILD
  | ZWATCHTYPE_DATA
  | ZWATCHTYPE_ANY
deriving DecidableEq, Repr

def ZooWatcherType.kinds : ZooWatcherType → List WatchKind
  | .ZWATCHTYPE_CHILD => [.child]
  | .ZWATCHTYPE_DATA => [.node, .exist]
  | .ZWATCHTYPE_ANY => [.child, .node, .exist]

def removeWatchers (zh : Watches) (path : Str) (type : ZooWatcherType) (wo : WatcherObject) :
    Watches :=
  type.kinds.foldl (fun zh kind => zh.setTable kind (removeWatcher path wo (zh.table kind))) zh

def deactivateWatcher (zh : Watches) (path : Str) (type : ZooWatcherType) (wo : WatcherObject)
    (rc : Int) : Watches :=
  if rc = ZOK then removeWatchers zh path type wo else zh

/-! ## Lists of watchers -/

section
variable {wl dest : List WatcherObject} {wo : WatcherObject}

@[simp] theorem mem_add_to_list {w : WatcherObject} :
    w ∈ add_to_list wl wo ↔ w = wo ∨ w ∈ wl := by
  unfold add_to_list
  split
  · rename_i hin
    constructor
    · exact .inr
    · rintro (rfl | hw)
      · exact hin
      · exact hw
  · exact List.mem_cons

theorem nodup_add_to_list (h : wl.Nodup) : (add_to_list wl wo).Nodup := by
  unfold add_to_list
  split
  · exact h
  · rename_i hin
    exact List.nodup_cons.mpr ⟨hin, h⟩

theorem suffix_add_to_list : wl <:+ add_to_list wl wo := by
  unfold add_to_list
  split
  · exact List.suffix_refl _
  · exact List.suffix_cons _ _

theorem mem_copy_watchers {w : WatcherObject} : w ∈ copy_watchers wl dest ↔ w ∈ wl ∨ w ∈ dest := by
  unfold copy_watchers
  induction wl generalizing dest with
  | nil => simp
  | cons a wl ih =>
    rw [List.foldl_cons, ih, mem_add_to_list, List.mem_cons, or_assoc, or_left_comm]

theorem nodup_copy_watchers (h : dest.Nodup) : (copy_watchers wl dest).Nodup := by
  unfold copy_watchers
  induction wl generalizing dest with
  | nil => exact h
  | cons a wl ih => exact ih (nodup_add_to_list h)

theorem suffix_copy_watchers : dest <:+ copy_watchers wl dest := by
  unfold copy_watchers
  induction wl generalizing dest with
  | nil => exact List.suffix_refl _
  | cons a wl ih => exact suffix_add_to_list.trans ih

/-- A list in which nothing stands twice loses what `erase` takes. -/
theorem removeWatcherFromList_eq (h : wl.Nodup) : removeWatcherFromList wo wl = wl.erase wo := by
  cases wl with
  | nil => rfl
  | cons head tail =>
    obtain ⟨hhead, -⟩ := List.nodup_cons.mp h
    simp only [removeWatcherFromList]
    split
    · rename_i heq
      subst heq
      rw [List.erase_of_not_mem hhead, List.erase_cons_head]
    · rename_i hne
      rw [List.erase_cons_tail (by simpa using hne)]

end

/-! ## One table -/

/-- The watchers of a path. -/
def ZkHashtable.watchers (ht : ZkHashtable) (path : Str) : List WatcherObject :=
  (ht.search path).getD []

/-- A table with no empty list in it, and no watcher twice in a list. -/
structure ZkHashtable.Tended (ht : ZkHashtable) : Prop where
  sound : Hashtable.Sound string_hash_djb2 ht ht.search
  lists : ∀ path wl, ht.search path = some wl → wl ≠ [] ∧ wl.Nodup ∧ fitsString path

section
variable {ht : ZkHashtable} {path : Str}

theorem ZkHashtable.Tended.nodup (h : ht.Tended) (path : Str) : (ht.watchers path).Nodup := by
  unfold ZkHashtable.watchers
  cases hs : ht.search path with
  | none => exact List.nodup_nil
  | some wl => exact (h.lists path wl hs).2.1

/-- A table that holds other watchers for one path. -/
theorem tended_of_update (h : ht.Tended) {ht' : ZkHashtable} {v : Option (List WatcherObject)}
    (hs : Hashtable.Sound string_hash_djb2 ht' (Function.update ht.search path v))
    (hv : ∀ wl, v = some wl → wl ≠ [] ∧ wl.Nodup ∧ fitsString path) :
    ht'.Tended ∧ ∀ p, ht'.watchers p = if p = path then v.getD [] else ht.watchers p := by
  have heq : ht'.search = Function.update ht.search path v :=
    funext fun p => hashtable_search_eq hs p
  refine ⟨⟨heq ▸ hs, fun p wl hp => ?_⟩, fun p => ?_⟩
  · rw [heq] at hp
    by_cases hpp : p = path
    · subst hpp
      rw [Function.update_self] at hp
      exact hv wl hp
    · rw [Function.update_of_ne hpp] at hp
      exact h.lists p wl hp
  · unfold ZkHashtable.watchers
    rw [heq]
    by_cases hpp : p = path
    · subst hpp
      rw [Function.update_self, if_pos rfl]
    · rw [Function.update_of_ne hpp, if_neg hpp]

theorem tended_create_zk_hashtable :
    create_zk_hashtable.Tended ∧ ∀ p, create_zk_hashtable.watchers p = [] := by
  have hs : Hashtable.Sound string_hash_djb2 create_zk_hashtable fun _ => none :=
    sound_create_hashtable (Option.some_get _).symm
  have heq : create_zk_hashtable.search = fun _ => none := funext fun p => hashtable_search_eq hs p
  refine ⟨⟨heq ▸ hs, fun p wl hp => ?_⟩, fun p => ?_⟩
  · rw [heq] at hp
    cases hp
  · unfold ZkHashtable.watchers
    rw [heq]
    rfl

theorem tended_insert (h : ht.Tended) (hp : fitsString path) (wo : WatcherObject) :
    (do_insert_watcher_object ht path wo).Tended ∧
      ∀ p, (do_insert_watcher_object ht path wo).watchers p =
        if p = path then add_to_list (ht.watchers path) wo else ht.watchers p := by
  unfold do_insert_watcher_object
  have hwatch : ht.watchers path = (ht.search path).getD [] := rfl
  split
  · rename_i hnone
    rw [hwatch, hnone]
    refine tended_of_update h (sound_insert h.sound hnone [wo]) fun wl hwl => ?_
    cases hwl
    exact ⟨by simp, by simp, hp⟩
  · rename_i wl hsome
    rw [hwatch, hsome]
    obtain ⟨-, hnodup, hfits⟩ := h.lists path wl hsome
    have hfound : ht.search path ≠ none := by simp [hsome]
    have hs := sound_write h.sound hfound (add_to_list wl wo)
    refine tended_of_update h hs fun wl' hwl => ?_
    cases hwl
    exact ⟨List.ne_nil_of_mem (mem_add_to_list.mpr (.inl rfl)), nodup_add_to_list hnodup, hfits⟩

theorem tended_remove (h : ht.Tended) (path : Str) :
    (hashtable_remove string_hash_djb2 ht path).1 = ht.search path ∧
      ZkHashtable.Tended (hashtable_remove string_hash_djb2 ht path).2 ∧
      ∀ p, ZkHashtable.watchers (hashtable_remove string_hash_djb2 ht path).2 p =
        if p = path then [] else ht.watchers p := by
  obtain ⟨h1, h2⟩ := hashtable_remove_spec h.sound path
  exact ⟨h1, tended_of_update h h2 (by simp)⟩

theorem tended_removeWatcher (h : ht.Tended) (path : Str) (wo : WatcherObject) :
    (removeWatcher path wo ht).Tended ∧
      ∀ p, (removeWatcher path wo ht).watchers p =
        if p = path then if wo.watcher = 0 then [] else (ht.watchers path).erase wo
        else ht.watchers p := by
  unfold removeWatcher
  have hwatch : ht.watchers path = (ht.search path).getD [] := rfl
  split
  · rename_i hnone
    rw [hnone] at hwatch
    refine ⟨h, fun p => ?_⟩
    by_cases hp : p = path
    · subst hp
      rw [if_pos rfl, hwatch]
      simp
    · rw [if_neg hp]
  · rename_i wl hsome
    rw [hsome] at hwatch
    obtain ⟨-, hnodup, hfits⟩ := h.lists path wl hsome
    split
    · exact (tended_remove h path).2
    · have hfound : ht.search path ≠ none := by simp [hsome]
      have hs := sound_write h.sound hfound (removeWatcherFromList wo wl)
      rw [removeWatcherFromList_eq hnodup] at hs ⊢
      rw [hwatch]
      dsimp only
      split
      · rename_i hnil
        have hr := (hashtable_remove_spec hs path).2
        rw [Function.update_idem] at hr
        have hgone := tended_of_update h hr (by simp)
        simp only [Option.getD_some, hnil] at hgone ⊢
        exact hgone
      · rename_i hne
        refine tended_of_update h hs fun wl' hwl => ?_
        cases hwl
        exact ⟨hne, hnodup.erase wo, hfits⟩

/-- The lists that `copy_table` comes by are those of the table. -/
theorem mem_copy_table (h : ht.Tended) {dest : List WatcherObject} {w : WatcherObject} :
    w ∈ copy_table ht dest ↔ w ∈ dest ∨ ∃ p, w ∈ ht.watchers p := by
  have hall : (∃ e ∈ ht.table.flatten, w ∈ e.v) ↔ ∃ p, w ∈ ht.watchers p := by
    constructor
    · rintro ⟨e, he, hw⟩
      have hs := (h.sound.binds.iff e.k e.v).mpr ⟨e, he, rfl, rfl⟩
      exact ⟨e.k, by simpa [ZkHashtable.watchers, hs] using hw⟩
    · rintro ⟨p, hw⟩
      unfold ZkHashtable.watchers at hw
      cases hs : ht.search p with
      | none => simp [hs] at hw
      | some wl =>
        obtain ⟨e, he, -, rfl⟩ := (h.sound.binds.iff p wl).mp hs
        exact ⟨e, he, by simpa [hs] using hw⟩
  have hfold : ∀ (es : List (Entry Str (List WatcherObject))) (dest : List WatcherObject),
      w ∈ es.foldl (fun dest e => copy_watchers e.v dest) dest ↔ w ∈ dest ∨ ∃ e ∈ es, w ∈ e.v := by
    intro es
    induction es with
    | nil => simp
    | cons e es ih =>
      intro dest
      rw [List.foldl_cons, ih, mem_copy_watchers, List.exists_mem_cons_iff, or_assoc, or_left_comm]
  rw [← hall, copy_table]
  split
  · rename_i h0
    have hnil : ht.table.flatten = [] := List.length_eq_zero_iff.mp (h.sound.count ▸ h0)
    simp [hnil]
  · rw [visit_iterator h.sound.count, hfold]

theorem nodup_copy_table {dest : List WatcherObject} (h : dest.Nodup) :
    (copy_table ht dest).Nodup := by
  unfold copy_table
  split
  · exact h
  · exact List.foldlRecOn _ _ h fun dest hd e _ => nodup_copy_watchers hd

theorem suffix_copy_table {dest : List WatcherObject} : dest <:+ copy_table ht dest := by
  unfold copy_table
  split
  · exact List.suffix_refl _
  · exact List.foldlRecOn _ _ (List.suffix_refl _) fun d hd e _ => hd.trans suffix_copy_watchers

end

/-! ## The three tables -/

/-- The watchers of one kind for a path. -/
def Watches.armed (zh : Watches) (kind : WatchKind) (path : Str) : List WatcherObject :=
  (zh.table kind).watchers path

def Watches.Tended (zh : Watches) : Prop := ∀ kind, (zh.table kind).Tended

section
variable {zh : Watches} {kind : WatchKind} {path : Str} {wo : WatcherObject}

@[simp] theorem table_setTable (kind' : WatchKind) (ht : ZkHashtable) :
    (zh.setTable kind ht).table kind' = if kind' = kind then ht else zh.table kind' := by
  cases kind <;> cases kind' <;> rfl

@[simp] theorem watcher_setTable (ht : ZkHashtable) : (zh.setTable kind ht).watcher = zh.watcher := by
  cases kind <;> rfl

/-- One of the tables is another one. -/
theorem tended_setTable (h : zh.Tended) {ht : ZkHashtable} (ht' : ht.Tended)
    {f : List WatcherObject}
    (hw : ∀ p, ht.watchers p = if p = path then f else (zh.table kind).watchers p) :
    (zh.setTable kind ht).Tended ∧ ∀ k p,
      (zh.setTable kind ht).armed k p = if k = kind ∧ p = path then f else zh.armed k p := by
  constructor
  · intro k
    rw [table_setTable]
    split
    · exact ht'
    · exact h k
  · intro k p
    unfold Watches.armed
    rw [table_setTable]
    by_cases hk : k = kind
    · subst hk
      simp [hw]
    · simp [hk]

theorem tended_add_for_event (h : zh.Tended) (kind : WatchKind) (path : Str)
    (list : List WatcherObject) :
    (add_for_event kind path (list, zh)).1 = copy_watchers (zh.armed kind path) list ∧
      (add_for_event kind path (list, zh)).2.Tended ∧
      (add_for_event kind path (list, zh)).2.watcher = zh.watcher ∧
      ∀ k p, (add_for_event kind path (list, zh)).2.armed k p =
        if k = kind ∧ p = path then [] else zh.armed k p := by
  obtain ⟨h1, h2, h3⟩ := tended_remove (h kind) path
  have hset := tended_setTable h h2 h3
  have hwatch : zh.armed kind path = ((zh.table kind).search path).getD [] := rfl
  rw [hwatch, ← h1]
  unfold add_for_event
  cases hr : hashtable_remove string_hash_djb2 (zh.table kind) path with
  | mk got ht =>
    rw [hr] at hset
    cases got with
    | none => exact ⟨rfl, hset.1, watcher_setTable ht, hset.2⟩
    | some wl => exact ⟨rfl, hset.1, watcher_setTable ht, hset.2⟩

/-- What the tables of an event give, and what is left in them. -/
theorem foldl_add_for_event (kinds : List WatchKind) (path : Str) {list : List WatcherObject}
    (h : zh.Tended) (hl : list.Nodup) :
    let r := kinds.foldl (fun s kind => add_for_event kind path s) (list, zh)
    r.2.Tended ∧ r.2.watcher = zh.watcher ∧ r.1.Nodup ∧
      (∀ w, w ∈ r.1 ↔ w ∈ list ∨ ∃ k ∈ kinds, w ∈ zh.armed k path) ∧
      ∀ k p, r.2.armed k p = if k ∈ kinds ∧ p = path then [] else zh.armed k p := by
  induction kinds generalizing list zh with
  | nil => exact ⟨h, rfl, hl, by simp, by simp⟩
  | cons kind kinds ih =>
    obtain ⟨hlist, htended, hwatcher, harmed⟩ := tended_add_for_event h kind path list
    obtain ⟨h1, h2, h3, h4, h5⟩ := ih htended (hlist ▸ nodup_copy_watchers hl)
    refine ⟨h1, h2.trans hwatcher, h3, fun w => ?_, fun k p => ?_⟩
    · rw [List.foldl_cons, h4, hlist, mem_copy_watchers, List.exists_mem_cons_iff]
      simp only [harmed]
      constructor
      · rintro ((hw | hw) | ⟨k, hk, hw⟩)
        · exact .inr (.inl hw)
        · exact .inl hw
        · split at hw
          · simp at hw
          · exact .inr (.inr ⟨k, hk, hw⟩)
      · rintro (hw | hw | ⟨k, hk, hw⟩)
        · exact .inl (.inr hw)
        · exact .inl (.inl hw)
        · by_cases hkk : k = kind
          · subst hkk
            exact .inl (.inl hw)
          · exact .inr ⟨k, hk, by simpa [hkk] using hw⟩
    · rw [List.foldl_cons, h5, harmed]
      by_cases hp : p = path
      · by_cases hk : k = kind
        · simp [hk, hp]
        · simp [hk, hp]
      · simp [hp]

theorem tended_activateWatcher (h : zh.Tended) (hp : fitsString path) {checker : ResultChecker}
    {rc : Int} (hk : checker.kind rc = some kind) (wo : WatcherObject) :
    (activateWatcher zh checker path wo rc).Tended ∧
      ∀ k p, (activateWatcher zh checker path wo rc).armed k p =
        if k = kind ∧ p = path then add_to_list (zh.armed kind path) wo else zh.armed k p := by
  obtain ⟨h1, h2⟩ := tended_insert (h kind) hp wo
  simp only [activateWatcher, hk]
  exact tended_setTable h h1 h2

theorem tended_removeWatchers (h : zh.Tended) (path : Str) (type : ZooWatcherType)
    (wo : WatcherObject) :
    (removeWatchers zh path type wo).Tended ∧
      ∀ k p, (removeWatchers zh path type wo).armed k p =
        if k ∈ type.kinds ∧ p = path then if wo.watcher = 0 then [] else (zh.armed k path).erase wo
        else zh.armed k p := by
  have hfold : ∀ (kinds : List WatchKind), kinds.Nodup → ∀ {zh : Watches}, zh.Tended →
      let r := kinds.foldl
        (fun zh kind => zh.setTable kind (removeWatcher path wo (zh.table kind))) zh
      r.Tended ∧ ∀ k p, r.armed k p =
        if k ∈ kinds ∧ p = path then if wo.watcher = 0 then [] else (zh.armed k path).erase wo
        else zh.armed k p := by
    intro kinds
    induction kinds with
    | nil =>
      intro _ zh h
      exact ⟨h, by simp⟩
    | cons kind kinds ih =>
      intro hnd zh h
      obtain ⟨hkind, hnd⟩ := List.nodup_cons.mp hnd
      obtain ⟨h1, h2⟩ := tended_removeWatcher (h kind) path wo
      obtain ⟨h3, h4⟩ := tended_setTable h h1 h2
      obtain ⟨h5, h6⟩ := ih hnd h3
      refine ⟨h5, fun k p => ?_⟩
      rw [List.foldl_cons, h6, h4, h4]
      by_cases hk : k = kind
      · subst hk
        simp only [hkind, false_and, if_false, List.mem_cons, true_or, true_and]
        rfl
      · simp [hk]
  exact hfold type.kinds (by cases type <;> decide) h

end

/-! ## Every run -/

/-- The watches of a handle, with each watch that was set and each call that an event
of a path made. -/
structure Watching where
  zh : Watches
  set : List (Str × WatcherObject)
  called : List (Str × WatcherObject)

inductive WatchAct
  /-- The reply to a request that came with a watcher. -/
  | activate (checker : ResultChecker) (path : Str) (wo : WatcherObject) (rc : Int)
  /-- An event, of a path or of the session. -/
  | event (type : Int) (path : Str)
  /-- The reply to a request to remove watches. -/
  | deactivate (type : ZooWatcherType) (path : Str) (wo : WatcherObject) (rc : Int)
deriving DecidableEq, Repr

instance (s : Str) : Decidable (fitsString s) := inferInstanceAs (Decidable (_ ∧ _))

def Watching.step (s : Watching) : WatchAct → Option Watching
  | .activate checker path wo rc =>
    if fitsString path then
      some { s with zh := activateWatcher s.zh checker path wo rc
                    set := if (checker.kind rc).isSome then s.set ++ [(path, wo)] else s.set }
    else none
  | .event type path =>
    let r := collectWatchers s.zh type path
    some { s with zh := r.2
                  called := if type = ZOO_SESSION_EVENT then s.called
                    else s.called ++ r.1.map fun w => (path, w) }
  | .deactivate type path wo rc => some { s with zh := deactivateWatcher s.zh path type wo rc }

/-- The tables of a new handle. -/
def Watches.init (watcher : WatcherObject) : Watches :=
  { active_node_watchers := create_zk_hashtable, active_exist_watchers := create_zk_hashtable,
    active_child_watchers := create_zk_hashtable, watcher }

def watching : System Watching WatchAct :=
  { start := fun s => (∃ watcher, s.zh = .init watcher) ∧ s.set = [] ∧ s.called = []
    step := Watching.step }

theorem tended_init (watcher : WatcherObject) :
    (Watches.init watcher).Tended ∧ ∀ k p, (Watches.init watcher).armed k p = [] := by
  obtain ⟨h1, h2⟩ := tended_create_zk_hashtable
  constructor
  · intro kind
    cases kind <;> exact h1
  · intro kind p
    cases kind <;> exact h2 p

theorem collectWatchers_event {zh : Watches} (h : zh.Tended) {type : Int}
    (ht : type ≠ ZOO_SESSION_EVENT) (path : Str) :
    (collectWatchers zh type path).2.Tended ∧
      (collectWatchers zh type path).1.Nodup ∧
      (∀ w, w ∈ (collectWatchers zh type path).1 ↔ ∃ k ∈ eventKinds type, w ∈ zh.armed k path) ∧
      ∀ k p, (collectWatchers zh type path).2.armed k p =
        if k ∈ eventKinds type ∧ p = path then [] else zh.armed k p := by
  obtain ⟨h1, -, h3, h4, h5⟩ := foldl_add_for_event (eventKinds type) path h List.nodup_nil
  unfold collectWatchers
  rw [if_neg ht]
  exact ⟨h1, h3, by simpa using h4, h5⟩

/-- What a step does to the watches: one is set, those of a path are called and gone, or
no watch comes about. -/
inductive WatchTrans (s s' : Watching) : Prop
  | set (kind : WatchKind) (path : Str) (wo : WatcherObject) : s'.set = s.set ++ [(path, wo)] →
      s'.called = s.called → (∀ k p, s'.zh.armed k p =
        if k = kind ∧ p = path then add_to_list (s.zh.armed kind path) wo else s.zh.armed k p) →
      WatchTrans s s'
  | call (kinds : List WatchKind) (path : Str) (list : List WatcherObject) : list.Nodup →
      (∀ w, w ∈ list ↔ ∃ k ∈ kinds, w ∈ s.zh.armed k path) → s'.set = s.set →
      s'.called = (s.called ++ list.map fun w => (path, w)) →
      (∀ k p, s'.zh.armed k p = if k ∈ kinds ∧ p = path then [] else s.zh.armed k p) →
      WatchTrans s s'
  | fewer : s'.set = s.set → s'.called = s.called →
      (∀ k p w, w ∈ s'.zh.armed k p → w ∈ s.zh.armed k p) → WatchTrans s s'

theorem watchTrans_of_step {s s' : Watching} {a : WatchAct} (h : s.zh.Tended)
    (hst : s.step a = some s') : s'.zh.Tended ∧ WatchTrans s s' := by
  cases a with
  | activate checker path wo rc =>
    simp only [Watching.step] at hst
    split at hst
    · rename_i hp
      cases hst
      cases hk : checker.kind rc with
      | none => exact ⟨by simpa [activateWatcher, hk] using h, .fewer (by simp) rfl
          (by simp [activateWatcher, hk])⟩
      | some kind =>
        obtain ⟨h1, h2⟩ := tended_activateWatcher h hp hk wo
        exact ⟨h1, .set kind path wo (by simp) rfl h2⟩
    · cases hst
  | event type path =>
    cases hst
    by_cases ht : type = ZOO_SESSION_EVENT
    · exact ⟨by simpa [collectWatchers, ht] using h, .fewer rfl (by simp [ht])
        (by simp [collectWatchers, ht])⟩
    · obtain ⟨h1, h2, h3, h4⟩ := collectWatchers_event h ht path
      exact ⟨h1, .call (eventKinds type) path _ h2 h3 rfl (by simp [ht]) h4⟩
  | deactivate type path wo rc =>
    cases hst
    simp only [deactivateWatcher]
    split
    · obtain ⟨h1, h2⟩ := tended_removeWatchers h path type wo
      refine ⟨h1, .fewer rfl rfl fun k p w hw => ?_⟩
      rw [h2] at hw
      split_ifs at hw with hkp h0
      · simp at hw
      · rw [hkp.2]
        exact List.mem_of_mem_erase hw
      · exact hw
    · exact ⟨h, .fewer rfl rfl fun _ _ _ hw => hw⟩

theorem Watching.tended_of_reach {s : Watching} (h : watching.Reach s) : s.zh.Tended := by
  refine System.Reach.invariant (P := fun s : Watching => s.zh.Tended) ?_ ?_ h
  · rintro ⟨zh, _, _⟩ ⟨⟨watcher, rfl⟩, -, -⟩
    exact (tended_init watcher).1
  · exact fun _ _ _ hs hst => (watchTrans_of_step hs hst).1

/-- An event calls each watcher of its path and of its kinds once, in whatever tables it
stands, and these watches are gone with it. All others stay. -/
theorem an_event_calls_its_watchers_once {s : Watching} (h : watching.Reach s) {type : Int}
    (ht : type ≠ ZOO_SESSION_EVENT) (path : Str) :
    (collectWatchers s.zh type path).1.Nodup ∧
      (∀ w, w ∈ (collectWatchers s.zh type path).1 ↔
        ∃ k ∈ eventKinds type, w ∈ s.zh.armed k path) ∧
      ∀ k p, (collectWatchers s.zh type path).2.armed k p =
        if k ∈ eventKinds type ∧ p = path then [] else s.zh.armed k p :=
  (collectWatchers_event (Watching.tended_of_reach h) ht path).2

/-- The same watcher waits for the data and for the coming of a node. -/
def setTwice : List WatchAct :=
  [.activate .data_result_checker [47, 122] { watcher := 7, context := 0 } ZOK,
   .activate .exists_result_checker [47, 122] { watcher := 7, context := 0 } ZNONODE,
   .activate .child_result_checker [47, 122] { watcher := 8, context := 0 } ZOK]

def Watching.init : Watching :=
  { zh := .init { watcher := 1, context := 2 }, set := [], called := [] }

theorem Watching.start_init : watching.start .init := ⟨⟨_, rfl⟩, rfl, rfl⟩

theorem a_change_calls_a_watcher_of_two_tables_once :
    ∃ s, watching.Reach s ∧ s.zh.armed .node [47, 122] = s.zh.armed .exist [47, 122] ∧
      (collectWatchers s.zh CHANGED_EVENT_DEF [47, 122]).1.Nodup := by
  obtain ⟨s, hs, ht⟩ := System.Reach.of_run (M := watching) (s := .init) setTwice
    (fun s => s.zh.armed .node [47, 122] == s.zh.armed .exist [47, 122]) Watching.start_init
    (by decide +kernel)
  exact ⟨s, hs, by simpa using ht, (an_event_calls_its_watchers_once hs (by decide) [47, 122]).1⟩

/-- An event of the session calls everyone once, the watcher of the handle last, and
takes no watch. -/
theorem a_session_event_calls_everyone_once {s : Watching} (h : watching.Reach s) (path : Str) :
    (collectWatchers s.zh ZOO_SESSION_EVENT path).1.Nodup ∧
      (∀ w, w ∈ (collectWatchers s.zh ZOO_SESSION_EVENT path).1 ↔
        w = s.zh.watcher ∨ ∃ k p, w ∈ s.zh.armed k p) ∧
      (collectWatchers s.zh ZOO_SESSION_EVENT path).1.getLast? = some s.zh.watcher ∧
      (collectWatchers s.zh ZOO_SESSION_EVENT path).2 = s.zh := by
  have hs := Watching.tended_of_reach h
  have hone : add_to_list [] s.zh.watcher = [s.zh.watcher] := rfl
  unfold collectWatchers
  rw [if_pos rfl, hone]
  unfold collect_session_watchers
  refine ⟨?_, fun w => ?_, ?_, rfl⟩
  · exact nodup_copy_table (nodup_copy_table (nodup_copy_table (List.nodup_singleton _)))
  · have hkinds : (∃ k p, w ∈ s.zh.armed k p) ↔ (∃ p, w ∈ s.zh.armed .node p) ∨
        (∃ p, w ∈ s.zh.armed .exist p) ∨ ∃ p, w ∈ s.zh.armed .child p := by
      constructor
      · rintro ⟨k, hk⟩
        cases k with
        | node => exact .inl hk
        | exist => exact .inr (.inl hk)
        | child => exact .inr (.inr hk)
      · rintro (hk | hk | hk)
        · exact ⟨.node, hk⟩
        · exact ⟨.exist, hk⟩
        · exact ⟨.child, hk⟩
    have hn : ∀ dest, w ∈ copy_table s.zh.active_node_watchers dest ↔
        w ∈ dest ∨ ∃ p, w ∈ s.zh.armed .node p := fun _ => mem_copy_table (hs .node)
    have he : ∀ dest, w ∈ copy_table s.zh.active_exist_watchers dest ↔
        w ∈ dest ∨ ∃ p, w ∈ s.zh.armed .exist p := fun _ => mem_copy_table (hs .exist)
    have hc : ∀ dest, w ∈ copy_table s.zh.active_child_watchers dest ↔
        w ∈ dest ∨ ∃ p, w ∈ s.zh.armed .child p := fun _ => mem_copy_table (hs .child)
    rw [hc, he, hn, List.mem_singleton, hkinds, or_assoc, or_assoc]
  · have hsuffix : [s.zh.watcher] <:+ copy_table s.zh.active_child_watchers
        (copy_table s.zh.active_exist_watchers
          (copy_table s.zh.active_node_watchers [s.zh.watcher])) :=
      suffix_copy_table.trans (suffix_copy_table.trans suffix_copy_table)
    obtain ⟨front, hfront⟩ := hsuffix
    simp only [← hfront, List.getLast?_append, List.getLast?_singleton, Option.some_or]

theorem a_session_event_calls_the_watcher_of_the_handle_last :
    ∃ s, watching.Reach s ∧ s.zh.armed .child [47, 122] ≠ [] ∧
      (collectWatchers s.zh ZOO_SESSION_EVENT []).1.getLast? = some s.zh.watcher := by
  obtain ⟨s, hs, ht⟩ := System.Reach.of_run (M := watching) (s := .init) setTwice
    (fun s => s.zh.armed .child [47, 122] != []) Watching.start_init (by decide +kernel)
  exact ⟨s, hs, by simpa using ht, (a_session_event_calls_everyone_once hs []).2.2.1⟩

/-! ## One call for one watch -/

def allKinds : List WatchKind := [.node, .exist, .child]

theorem mem_allKinds (kind : WatchKind) : kind ∈ allKinds := by
  cases kind <;> decide

/-- In how many tables a watcher waits for a path. -/
def Watches.waits (zh : Watches) (path : Str) (w : WatcherObject) : Nat :=
  allKinds.countP fun k => w ∈ zh.armed k path

theorem countP_le_add {α : Type} {l : List α} {p q r : α → Bool}
    (h : ∀ x ∈ l, r x = true → p x = true ∨ q x = true) : l.countP r ≤ l.countP p + l.countP q := by
  induction l with
  | nil => simp
  | cons a l ih =>
    have hl := ih fun x hx => h x (by simp [hx])
    have ha := h a (by simp)
    simp only [List.countP_cons]
    split_ifs with h1 h2 h3 <;> first | omega | simp_all

theorem countP_add_le {α : Type} {l : List α} {p q r : α → Bool}
    (hp : ∀ x ∈ l, p x = true → r x = true ∧ q x = false) (hq : ∀ x ∈ l, q x = true → r x = true) :
    l.countP p + l.countP q ≤ l.countP r := by
  induction l with
  | nil => simp
  | cons a l ih =>
    have hl := ih (fun x hx => hp x (by simp [hx])) fun x hx => hq x (by simp [hx])
    have h1 := hp a (by simp)
    have h2 := hq a (by simp)
    simp only [List.countP_cons]
    split_ifs with h3 h4 h5 <;> first | omega | simp_all

/-- The calls of a watcher and the tables it waits in are paid by the watches that were set. -/
def Watching.Paid (s : Watching) : Prop :=
  ∀ path w, s.called.count (path, w) + s.zh.waits path w ≤ s.set.count (path, w)

theorem Watching.paid_step {s s' : Watching} (hp : s.Paid) (ht : WatchTrans s s') : s'.Paid := by
  intro p w
  have hpaid := hp p w
  cases ht with
  | set kind path wo hset hcalled harmed =>
    rw [hset, hcalled, List.count_append]
    have hone : allKinds.countP (fun k => decide (k = kind)) = 1 := by cases kind <;> rfl
    by_cases heq : (path, wo) = (p, w)
    · have hle : s'.zh.waits p w ≤ s.zh.waits p w + allKinds.countP fun k => decide (k = kind) := by
        refine countP_le_add fun k _ hk => ?_
        simp only [harmed, decide_eq_true_eq] at hk ⊢
        split_ifs at hk with hkp
        · exact .inr hkp.1
        · exact .inl hk
      have hcount : [(path, wo)].count (p, w) = 1 := by simp [heq]
      omega
    · have hsame : s'.zh.waits p w ≤ s.zh.waits p w := by
        refine List.countP_mono_left fun k _ hk => ?_
        simp only [harmed, decide_eq_true_eq] at hk ⊢
        split_ifs at hk with hkp
        · rw [hkp.1, hkp.2]
          exact (mem_add_to_list.mp hk).resolve_left fun hw => heq (by rw [hw, hkp.2])
        · exact hk
      omega
  | call kinds path list hnodup hmem hset hcalled harmed =>
    rw [hset, hcalled, List.count_append]
    -- The tables of the event that a watcher stands in: it leaves all of them for one call.
    have hle : s'.zh.waits p w +
        allKinds.countP (fun k => decide ((k ∈ kinds ∧ p = path) ∧ w ∈ s.zh.armed k p)) ≤
          s.zh.waits p w := by
      refine countP_add_le (fun k _ hk => ?_) fun k _ hk => ?_
      · simp only [harmed, decide_eq_true_eq] at hk
        split_ifs at hk with hkp
        · simp at hk
        · simp [hk, hkp]
      · simp only [decide_eq_true_eq] at hk ⊢
        exact hk.2
    have hcall : (list.map fun w => (path, w)).count (p, w) ≤
        allKinds.countP (fun k => decide ((k ∈ kinds ∧ p = path) ∧ w ∈ s.zh.armed k p)) := by
      by_cases hin : (p, w) ∈ list.map fun w => (path, w)
      · obtain ⟨w', hw, heq⟩ := List.mem_map.mp hin
        cases heq
        have hnd : (list.map fun w => (p, w)).Nodup :=
          hnodup.map fun a b hab => (Prod.mk.inj hab).2
        obtain ⟨k, hk, harm⟩ := (hmem w).mp hw
        have hpos : 0 < allKinds.countP
            (fun k => decide ((k ∈ kinds ∧ p = p) ∧ w ∈ s.zh.armed k p)) :=
          List.countP_pos_iff.mpr ⟨k, mem_allKinds k, by simp [hk, harm]⟩
        have hone := List.nodup_iff_count_le_one.mp hnd (p, w)
        omega
      · rw [List.count_eq_zero_of_not_mem hin]
        exact Nat.zero_le _
    omega
  | fewer hset hcalled harmed =>
    rw [hset, hcalled]
    have hle : s'.zh.waits p w ≤ s.zh.waits p w := by
      refine List.countP_mono_left fun k _ hk => ?_
      simp only [decide_eq_true_eq] at hk ⊢
      exact harmed k p w hk
    omega

/-- However a handle is used, a watcher is not called more often for a path than it was
set for it, and each watch that still waits is one call less. -/
theorem a_watch_is_good_for_one_call {s : Watching} (h : watching.Reach s) (path : Str)
    (w : WatcherObject) :
    s.called.count (path, w) + s.zh.waits path w ≤ s.set.count (path, w) := by
  have hinv : s.zh.Tended ∧ s.Paid := by
    refine System.Reach.invariant (P := fun s : Watching => s.zh.Tended ∧ s.Paid) ?_ ?_ h
    · rintro ⟨zh, _, _⟩ ⟨⟨watcher, rfl⟩, rfl, rfl⟩
      obtain ⟨h1, h2⟩ := tended_init watcher
      refine ⟨h1, fun p w => ?_⟩
      simp [Watches.waits, h2]
    · intro s a s' hs hst
      obtain ⟨h1, h2⟩ := watchTrans_of_step hs.1 hst
      exact ⟨h1, Watching.paid_step hs.2 h2⟩
  exact hinv.2 path w

/-- Two watches for a node, of which a change makes one call. -/
theorem two_watches_and_one_call :
    ∃ s, watching.Reach s ∧ s.called = [([47, 122], { watcher := 7, context := 0 })] ∧
      s.called.count ([47, 122], { watcher := 7, context := 0 }) +
          s.zh.waits [47, 122] { watcher := 7, context := 0 } ≤
        s.set.count ([47, 122], { watcher := 7, context := 0 }) := by
  obtain ⟨s, hs, ht⟩ := System.Reach.of_run (M := watching) (s := .init)
    (setTwice ++ [.event CHANGED_EVENT_DEF [47, 122]])
    (fun s => s.called == [([47, 122], { watcher := 7, context := 0 })]) Watching.start_init
    (by decide +kernel)
  exact ⟨s, hs, by simpa using ht, a_watch_is_good_for_one_call hs _ _⟩

/-! ## The next server -/

/-- The packet that goes out after a handshake. -/
abbrev WatchesPacket : Jute := .field RequestHeader SetWatches

def watchesPacket (last_zxid : Int) (dataWatches existWatches childWatches : List Str) :
    WatchesPacket.Val :=
  ((SET_WATCHES_XID, ZOO_SETWATCHES_OP, ()),
    (last_zxid, dataWatches, existWatches, childWatches, ()))

/-- The request that goes out after a handshake, unless there is no watch. The first
`none` stands for a key that is not there and for an archive that overflows. -/
def send_set_watches (zh : Watches) (last_zxid : Int) : Option (Option Str) := do
  let dataWatches ← collect_keys zh.active_node_watchers
  let existWatches ← collect_keys zh.active_exist_watchers
  let childWatches ← collect_keys zh.active_child_watchers
  if dataWatches = [] ∧ existWatches = [] ∧ childWatches = [] then return none
  else
    let oa ← WatchesPacket.written (watchesPacket last_zxid dataWatches existWatches childWatches)
    return some oa.buffer

/-- The keys of a table are the paths that have a watcher. -/
theorem keys_of_tended {ht : ZkHashtable} (h : ht.Tended) :
    ∃ keys, collect_keys ht = some keys ∧ keys.Nodup ∧ keys.length = ht.entrycount ∧
      (∀ p, p ∈ keys ↔ ht.watchers p ≠ []) ∧ ∀ p ∈ keys, fitsString p := by
  have hsearch : ∀ p, p ∈ ht.table.flatten.map Entry.k ↔ ∃ wl, ht.search p = some wl := by
    intro p
    rw [← not_not (a := p ∈ _), ← h.sound.binds.none_iff, ← ne_eq, Option.ne_none_iff_exists']
  refine ⟨_, collect_keys_eq h.sound.count, h.sound.binds.nodup, ?_, fun p => ?_, fun p hp => ?_⟩
  · rw [List.length_map, h.sound.count]
  · rw [hsearch]
    unfold ZkHashtable.watchers
    cases hs : ht.search p with
    | none => simp
    | some wl => simpa using (h.lists p wl hs).1
  · obtain ⟨wl, hs⟩ := (hsearch p).mp hp
    exact (h.lists p wl hs).2.2

theorem forall_fitsString {keys : List Str} (h : ∀ p ∈ keys, fitsString p) {n : Nat}
    (hn : keys.length = n) (hlt : n < 2 ^ 31) : String_vector.Fits keys :=
  ⟨hn ▸ hlt, List.forall_iff_forall_mem.mpr h⟩

/-- After a handshake the new server reads the paths that have a watcher, each one once
and under its kind, from a packet of 2^29 bytes at most. Nothing is sent only when there is
no watch. -/
theorem the_next_server_gets_the_watches (uninit : Int) {s : Watching} (h : watching.Reach s)
    {last_zxid : Int} (hz : isInt64 last_zxid)
    (hcount : ∀ k, (s.zh.table k).entrycount < 2 ^ 31) :
    ∃ dataWatches existWatches childWatches : List Str,
      (dataWatches.Nodup ∧ ∀ p, p ∈ dataWatches ↔ s.zh.armed .node p ≠ []) ∧
      (existWatches.Nodup ∧ ∀ p, p ∈ existWatches ↔ s.zh.armed .exist p ≠ []) ∧
      (childWatches.Nodup ∧ ∀ p, p ∈ childWatches ↔ s.zh.armed .child p ≠ []) ∧
      if dataWatches = [] ∧ existWatches = [] ∧ childWatches = [] then
        send_set_watches s.zh last_zxid = some none
      else
        (WatchesPacket.bytes (watchesPacket last_zxid dataWatches existWatches childWatches)).length ≤ 2 ^ 29 →
        ∃ b ia, send_set_watches s.zh last_zxid = some (some b) ∧
          (WatchesPacket.deserialize uninit).run.run
              (create_buffer_iarchive b b.length (Nat.le_refl _)) =
            (.ok ((SET_WATCHES_XID, ZOO_SETWATCHES_OP, ()),
              (last_zxid, dataWatches.map .whole, existWatches.map .whole,
                childWatches.map .whole, ())), ia) ∧ ia.rest = [] := by
  have hs := Watching.tended_of_reach h
  obtain ⟨d, hd, hd1, hd2, hd3, hd4⟩ := keys_of_tended (hs .node)
  obtain ⟨e, he, he1, he2, he3, he4⟩ := keys_of_tended (hs .exist)
  obtain ⟨c, hc, hc1, hc2, hc3, hc4⟩ := keys_of_tended (hs .child)
  refine ⟨d, e, c, ⟨hd1, hd3⟩, ⟨he1, he3⟩, ⟨hc1, hc3⟩, ?_⟩
  have hsend : send_set_watches s.zh last_zxid =
      if d = [] ∧ e = [] ∧ c = [] then some none
      else (WatchesPacket.written (watchesPacket last_zxid d e c)).map fun oa => some oa.buffer := by
    unfold send_set_watches
    rw [show collect_keys s.zh.active_node_watchers = some d from hd,
      show collect_keys s.zh.active_exist_watchers = some e from he,
      show collect_keys s.zh.active_child_watchers = some c from hc]
    simp only [Option.bind_eq_bind, Option.bind_some]
    split
    · rfl
    · cases WatchesPacket.written (watchesPacket last_zxid d e c) <;> rfl
  rw [hsend]
  split
  · rfl
  · intro hsize
    have hxid : isInt32 SET_WATCHES_XID := by constructor <;> decide
    have hop : isInt32 ZOO_SETWATCHES_OP := by constructor <;> decide
    have hfits : WatchesPacket.Fits (watchesPacket last_zxid d e c) :=
      ⟨⟨hxid, hop, trivial⟩, hz,
        forall_fitsString hd4 hd2 (hcount .node), forall_fitsString he4 he2 (hcount .exist),
        forall_fitsString hc4 hc2 (hcount .child), trivial⟩
    obtain ⟨oa, hw⟩ := Jute.written_returns hsize
    obtain ⟨ia, h1, h2⟩ := WatchesPacket.reads_written uninit hfits hw
    exact ⟨_, ia, by rw [hw]; rfl, h1, h2⟩

theorem the_next_server_gets_three_watches :
    ∃ s, watching.Reach s ∧ (∀ k, (s.zh.table k).entrycount = 1) ∧
      ∃ dataWatches : List Str,
        dataWatches.Nodup ∧ ∀ p, p ∈ dataWatches ↔ s.zh.armed .node p ≠ [] := by
  obtain ⟨s, hs, ht⟩ := System.Reach.of_run (M := watching) (s := .init) setTwice
    (fun s => allKinds.all fun k => (s.zh.table k).entrycount == 1) Watching.start_init
    (by decide +kernel)
  have hone : ∀ k, (s.zh.table k).entrycount = 1 := by
    intro k
    simpa using List.all_eq_true.mp ht k (mem_allKinds k)
  have hz : isInt64 9 := by constructor <;> decide
  obtain ⟨d, -, -, hd, -⟩ := the_next_server_gets_the_watches 0 hs hz fun k => by
    rw [hone k]
    decide
  exact ⟨s, hs, hone, d, hd⟩

end ZookZhubei
