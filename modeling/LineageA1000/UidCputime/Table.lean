import Mathlib.Data.BitVec
import Mathlib.Algebra.Group.Prod
import Mathlib.Data.List.Nodup

/-!
# The uid table

The hash table of `uid_cputime.c`: at most one entry for each uid, with the time of exited tasks and
the time of the tasks found by the last walk. The lemmas read an entry after each table operation;
nothing else depends on how the table is stored.
-/

namespace LineageA1000.UidCputime

abbrev Uid := BitVec 32

/-- `cputime_t` with tick accounting on a 32-bit machine: `unsigned long` jiffies. -/
abbrev Cputime := BitVec 32

structure UidEntry where
  uid : Uid
  utime : Cputime
  stime : Cputime
  activeUtime : Cputime
  activeStime : Cputime
  deriving DecidableEq

/-- The entries of the hash table; `find_or_register_uid` adds a uid only when it is not there. -/
structure UidTable where
  entries : List UidEntry
  distinct : (entries.map UidEntry.uid).Nodup

namespace UidTable

def empty : UidTable := ⟨[], List.nodup_nil⟩

def findUidEntry (T : UidTable) (uid : Uid) : Option UidEntry :=
  T.entries.find? fun e => e.uid = uid

/-- `find_or_register_uid`; `none` is the failed `kzalloc`. -/
def findOrRegisterUid (T : UidTable) (alloc : Bool) (uid : Uid) : Option UidTable :=
  if h : uid ∈ T.entries.map UidEntry.uid then some T
  else if alloc then some ⟨⟨uid, 0, 0, 0, 0⟩ :: T.entries, List.nodup_cons.2 ⟨h, T.distinct⟩⟩
  else none

/-- Writes to the fields of every entry but `uid`. -/
def update (T : UidTable) (f : UidEntry → UidEntry) : UidTable where
  entries := T.entries.map fun e => { f e with uid := e.uid }
  distinct := by
    rw [List.map_map]
    exact T.distinct

def updateAt (T : UidTable) (uid : Uid) (f : UidEntry → UidEntry) : UidTable :=
  T.update fun e => if e.uid = uid then f e else e

/-! ### Reading an entry -/

variable (T : UidTable) (uid : Uid)

/-- The time the entry has from exited tasks, none where there is no entry. -/
def charged : Cputime × Cputime :=
  (T.findUidEntry uid).elim 0 fun e => (e.utime, e.stime)

/-- The time the entry has from the walk over the threads. -/
def active : Cputime × Cputime :=
  (T.findUidEntry uid).elim 0 fun e => (e.activeUtime, e.activeStime)

def Registered : Prop := (T.findUidEntry uid).isSome

variable {T uid}

theorem registered_iff_mem : T.Registered uid ↔ uid ∈ T.entries.map UidEntry.uid := by
  rw [Registered, findUidEntry, List.find?_isSome, List.mem_map]
  simp only [decide_eq_true_eq]

theorem findUidEntry_of_mem {e : UidEntry} (hmem : e ∈ T.entries) :
    T.findUidEntry e.uid = some e := by
  obtain ⟨entries, hdistinct⟩ := T
  change entries.find? _ = some e
  change e ∈ entries at hmem
  induction entries with
  | nil => cases hmem
  | cons x xs ih =>
      rw [List.map_cons, List.nodup_cons] at hdistinct
      rcases List.mem_cons.1 hmem with rfl | htail
      · rw [List.find?_cons_of_pos (by simp)]
      · have hne : x.uid ≠ e.uid := by
          intro heq
          exact hdistinct.1 (heq ▸ List.mem_map_of_mem htail)
        rw [List.find?_cons_of_neg (by simpa using hne), ih hdistinct.2 htail]

theorem findUidEntry_update (f : UidEntry → UidEntry) (uid : Uid) :
    (T.update f).findUidEntry uid =
      (T.findUidEntry uid).map fun e => { f e with uid := e.uid } := by
  rw [findUidEntry, update, List.find?_map, findUidEntry]
  rfl

theorem uid_of_findUidEntry {e : UidEntry} (hfind : T.findUidEntry uid = some e) : e.uid = uid := by
  simpa using List.find?_some hfind

theorem findUidEntry_updateAt (f : UidEntry → UidEntry) (uid uid' : Uid) :
    (T.updateAt uid f).findUidEntry uid' =
      if uid' = uid then (T.findUidEntry uid').map fun e => { f e with uid := e.uid }
      else T.findUidEntry uid' := by
  rw [updateAt, findUidEntry_update]
  cases hfind : T.findUidEntry uid' with
  | none => simp
  | some e =>
      rw [uid_of_findUidEntry hfind |>.symm]
      by_cases heq : e.uid = uid
      · simp [heq]
      · simp [heq]

/-- A successful registration adds an empty entry where there was none and changes no other. -/
theorem findOrRegisterUid_eq_some {T' : UidTable} {alloc : Bool}
    (hreg : T.findOrRegisterUid alloc uid = some T') :
    T'.Registered uid ∧ (∀ uid', T.Registered uid' → T'.Registered uid') ∧
      (∀ uid', T'.Registered uid' → T.Registered uid' ∨ uid' = uid) ∧
      T'.charged = T.charged ∧ T'.active = T.active := by
  rw [findOrRegisterUid] at hreg
  split at hreg
  · rename_i hmem
    cases hreg
    exact ⟨registered_iff_mem.2 hmem, fun _ h => h, fun _ h => Or.inl h, rfl, rfl⟩
  · rename_i hmem
    split at hreg
    · cases hreg
      have hnone : T.findUidEntry uid = none := by
        rw [← Option.not_isSome_iff_eq_none]
        exact mt registered_iff_mem.1 hmem
      have hfind (uid' : Uid) :
          findUidEntry ⟨⟨uid, 0, 0, 0, 0⟩ :: T.entries, List.nodup_cons.2 ⟨hmem, T.distinct⟩⟩ uid' =
            if uid = uid' then some ⟨uid, 0, 0, 0, 0⟩ else T.findUidEntry uid' := by
        rw [findUidEntry, List.find?_cons]
        by_cases heq : uid = uid'
        · simp [heq]
        · simp [heq, findUidEntry]
      refine ⟨?_, ?_, ?_, ?_, ?_⟩
      · rw [Registered, hfind, if_pos rfl]
        rfl
      · intro uid' h
        rw [Registered, hfind]
        split
        · rfl
        · exact h
      · intro uid' h
        rw [Registered, hfind] at h
        split at h
        · exact Or.inr (Eq.symm ‹_›)
        · exact Or.inl h
      · funext uid'
        rw [charged, hfind, charged]
        split
        · rename_i heq
          rw [← heq, hnone]
          rfl
        · rfl
      · funext uid'
        rw [active, hfind, active]
        split
        · rename_i heq
          rw [← heq, hnone]
          rfl
        · rfl
    · cases hreg

theorem findOrRegisterUid_isSome {alloc : Bool} (h : T.Registered uid ∨ alloc = true) :
    ∃ T', T.findOrRegisterUid alloc uid = some T' := by
  rw [findOrRegisterUid]
  split
  · exact ⟨_, rfl⟩
  · rename_i hmem
    have halloc : alloc = true := h.resolve_left (mt registered_iff_mem.1 hmem)
    rw [if_pos halloc]
    exact ⟨_, rfl⟩

end UidTable

end LineageA1000.UidCputime
