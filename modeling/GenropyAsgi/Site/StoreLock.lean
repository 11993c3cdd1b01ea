import GenropyAsgi.Library.Run
import GenropyAsgi.Site.Readers

/-!
# The lock of a store

`lock_item` and `unlock_item` of `siteregister_client.py`, and the with-block of `ServerStore` over
them. A lock is held by a reason and counts its grants; a block locks under the identity of the
thread that built its store, whichever thread enters it, and `unlock_item` does not read the reason.

What has been granted and not yet released is a list of items with reasons, and the lock is sound
when it accounts for that list (`Accounts`). Granting and releasing keep the account as long as what
is released was granted.
-/

namespace GenropyAsgi.Site

open Library

/-- The identity of a thread, as `threading.get_ident` answers it. -/
abbrev Thread := ℕ

/-- The reason of a lock. -/
inductive Reason where
  /-- The identity of a thread. -/
  | ident (thread : Thread)
  /-- A text. -/
  | text (text : String)
  /-- `None`. -/
  | none
deriving DecidableEq

/-- An item that can be locked. The global store is none: its lock is a grant without effect. -/
abbrev LockKey := RegisterName × String

/-- The entry of a held item. -/
structure Held where
  /-- Who holds it. -/
  reason : Reason
  /-- How often it has been granted. -/
  count : ℕ
deriving DecidableEq

/-- `item_locks`. -/
abbrev ItemLocks := Dict LockKey Held

/-- `lock_item`. -/
def lockItem (item_locks : ItemLocks) (key : LockKey) (reason : Reason) : ItemLocks × Bool :=
  match item_locks.get key with
  | none => (item_locks.set key ⟨reason, 1⟩, true)
  | some held =>
    if held.reason = reason then (item_locks.set key { held with count := held.count + 1 }, true)
    else (item_locks, false)

/-- `unlock_item`, which answers `True` and does not read its reason. -/
def unlockItem (item_locks : ItemLocks) (key : LockKey) (_reason : Reason) : ItemLocks :=
  match item_locks.get key with
  | none => item_locks
  | some held =>
    if held.count - 1 = 0 then item_locks.pop key
    else item_locks.set key { held with count := held.count - 1 }

/-! ## The account of a lock -/

/-- A grant: the item, with the reason under which it is held. -/
abbrev Grant := LockKey × Reason

/-- The locks account for a list of grants. -/
structure Accounts (item_locks : ItemLocks) (grants : List Grant) : Prop where
  /-- Every grant is the holder's. -/
  holder : ∀ grant ∈ grants, ∀ held, item_locks.get grant.1 = some held → held.reason = grant.2
  /-- The count of an item is the number of the holder's grants. -/
  count : ∀ key held, item_locks.get key = some held → held.count = grants.count (key, held.reason)
  /-- An item is free exactly when nothing of it is granted. -/
  free : ∀ key, item_locks.get key = none ↔ ∀ grant ∈ grants, grant.1 ≠ key

/-- Nothing is granted of locks that are all free. -/
theorem accounts_empty : Accounts ∅ [] where
  holder := fun _ h => absurd h List.not_mem_nil
  count := by
    intro key held h
    rw [Dict.get_empty] at h
    cases h
  free := fun key => ⟨fun _ _ h => absurd h List.not_mem_nil, fun _ => Dict.get_empty key⟩

variable {item_locks : ItemLocks} {grants grants' : List Grant} {key : LockKey} {reason : Reason}

/-- The order of the grants does not matter. -/
theorem Accounts.perm (h : Accounts item_locks grants) (hperm : grants.Perm grants') :
    Accounts item_locks grants' where
  holder := fun grant hgrant => h.holder grant (hperm.mem_iff.2 hgrant)
  count := by
    intro key held hheld
    rw [h.count key held hheld, hperm.count_eq]
  free := fun key => (h.free key).trans
    ⟨fun hall grant hgrant => hall grant (hperm.mem_iff.2 hgrant),
      fun hall grant hgrant => hall grant (hperm.mem_iff.1 hgrant)⟩

/-- A grant is held by its reason. -/
theorem Accounts.held (h : Accounts item_locks grants) (hgrant : (key, reason) ∈ grants) :
    item_locks.get key = some ⟨reason, grants.count (key, reason)⟩ := by
  cases hget : item_locks.get key with
  | none => exact absurd rfl ((h.free key).1 hget _ hgrant)
  | some held =>
    have hreason := h.holder _ hgrant held hget
    have hcount := h.count key held hget
    rw [hreason] at hcount
    cases held
    cases hreason
    cases hcount
    rfl

/-- A lock is granted when the item is free, or held by the reason. -/
theorem lockItem_granted_iff :
    (lockItem item_locks key reason).2 = true ↔
      ∀ held, item_locks.get key = some held → held.reason = reason := by
  unfold lockItem
  cases item_locks.get key with
  | none => simp
  | some held =>
    dsimp only
    split_ifs with hreason
    · simp [hreason]
    · simp [hreason]

/-- A lock that is refused changes nothing. -/
theorem lockItem_refused (h : (lockItem item_locks key reason).2 = false) :
    (lockItem item_locks key reason).1 = item_locks := by
  unfold lockItem at h ⊢
  cases hget : item_locks.get key with
  | none =>
    rw [hget] at h
    cases h
  | some held =>
    rw [hget] at h
    dsimp only at h ⊢
    split_ifs at h ⊢ with hreason
    · rfl

/-- The entries after a lock that is granted. -/
theorem get_lockItem (h : (lockItem item_locks key reason).2 = true) (j : LockKey) :
    (lockItem item_locks key reason).1.get j =
      if j = key then some ⟨reason, ((item_locks.get key).map Held.count).getD 0 + 1⟩
      else item_locks.get j := by
  have hheld := lockItem_granted_iff.1 h
  unfold lockItem
  cases hget : item_locks.get key with
  | none =>
    dsimp only
    rw [Dict.get_set]
    rfl
  | some held =>
    have hreason := hheld held hget
    dsimp only
    rw [if_pos hreason, Dict.get_set, hreason]
    rfl

/-- A lock that is granted keeps the account. -/
theorem Accounts.lock (h : Accounts item_locks grants)
    (hgranted : (lockItem item_locks key reason).2 = true) :
    Accounts (lockItem item_locks key reason).1 ((key, reason) :: grants) := by
  have hheld := lockItem_granted_iff.1 hgranted
  -- The count was the number of the reason's grants, none if the item was free.
  have hcount : ((item_locks.get key).map Held.count).getD 0 = grants.count (key, reason) := by
    cases hget : item_locks.get key with
    | none =>
      symm
      rw [Option.map_none, Option.getD_none, List.count_eq_zero]
      intro hmem
      exact absurd rfl ((h.free key).1 hget _ hmem)
    | some held =>
      rw [Option.map_some, Option.getD_some, h.count key held hget, hheld held hget]
  refine ⟨?_, ?_, ?_⟩
  · intro grant hgrant held hget
    rw [get_lockItem hgranted] at hget
    split_ifs at hget with hkey
    · cases hget
      rcases List.mem_cons.1 hgrant with rfl | hgrant
      · rfl
      · -- Another grant of the item is the holder's.
        have hold : item_locks.get grant.1 = some ⟨grant.2, grants.count grant⟩ := h.held hgrant
        rw [hkey] at hold
        exact (hheld _ hold).symm
    · rcases List.mem_cons.1 hgrant with rfl | hgrant
      · exact absurd rfl hkey
      · exact h.holder grant hgrant held hget
  · intro j held hget
    rw [get_lockItem hgranted] at hget
    split_ifs at hget with hkey
    · cases hget
      rw [hkey, hcount, List.count_cons_self]
    · rw [h.count j held hget, List.count_cons_of_ne]
      intro heq
      exact hkey (congrArg Prod.fst heq).symm
  · intro j
    rw [get_lockItem hgranted]
    split_ifs with hkey
    · constructor
      · exact fun hnone => absurd hnone (by simp)
      · exact fun hall => absurd hkey.symm (hall _ List.mem_cons_self)
    · rw [h.free j, List.forall_mem_cons]
      exact ⟨fun hall => ⟨Ne.symm hkey, hall⟩, fun hall => hall.2⟩

/-- The entries after a release of a held item. -/
theorem get_unlockItem {held : Held} (hget : item_locks.get key = some held) (given : Reason)
    (j : LockKey) :
    (unlockItem item_locks key given).get j =
      if j = key then
        if held.count - 1 = 0 then none else some { held with count := held.count - 1 }
      else item_locks.get j := by
  unfold unlockItem
  rw [hget]
  dsimp only
  by_cases hcount : held.count - 1 = 0
  · rw [if_pos hcount, if_pos hcount, Dict.get_pop]
  · rw [if_neg hcount, if_neg hcount, Dict.get_set]

/-- A release of what was granted keeps the account. -/
theorem Accounts.unlock (h : Accounts item_locks grants) (hgrant : (key, reason) ∈ grants)
    (given : Reason) :
    Accounts (unlockItem item_locks key given) (grants.erase (key, reason)) := by
  have hget := h.held hgrant
  have hpos : 0 < grants.count (key, reason) := List.count_pos_iff.2 hgrant
  have hafter := get_unlockItem hget given
  dsimp only at hafter
  refine ⟨?_, ?_, ?_⟩
  · intro grant hmem held hheld
    have hold := List.mem_of_mem_erase hmem
    rw [hafter] at hheld
    split_ifs at hheld with hkey hlast
    · have hreason := h.holder grant hold _ (by rw [hkey]; exact hget)
      cases hheld
      exact hreason
    · exact h.holder grant hold held hheld
  · intro j held hheld
    rw [hafter] at hheld
    split_ifs at hheld with hkey hlast
    · cases hheld
      rw [hkey, List.count_erase_self]
    · rw [h.count j held hheld, List.count_erase_of_ne]
      intro heq
      exact hkey (congrArg Prod.fst heq)
  · intro j
    rw [hafter]
    by_cases hkey : j = key
    · subst hkey
      rw [if_pos rfl]
      constructor
      · intro hnone grant hmem hj
        -- The last grant has gone, and what is left of the item would be the holder's as well.
        have hreason := h.holder grant (List.mem_of_mem_erase hmem) _ (by rw [hj]; exact hget)
        have hgrant' : grant = (j, reason) := Prod.ext hj hreason.symm
        have hleft : 0 < (grants.erase (j, reason)).count (j, reason) := by
          rw [← hgrant']
          rw [← hgrant'] at hmem
          exact List.count_pos_iff.2 hmem
        rw [List.count_erase_self] at hleft
        split_ifs at hnone with hlast
        omega
      · intro hall
        rw [if_pos]
        by_contra hlast
        have hleft : 0 < (grants.erase (j, reason)).count (j, reason) := by
          rw [List.count_erase_self]
          omega
        exact hall _ (List.count_pos_iff.1 hleft) rfl
    · rw [if_neg hkey, h.free j]
      constructor
      · exact fun hall grant hmem => hall grant (List.mem_of_mem_erase hmem)
      · intro hall grant hmem hj
        have hne : grant ≠ (key, reason) := by
          intro heq
          rw [heq] at hj
          exact hkey hj.symm
        exact hall grant ((List.mem_erase_of_ne hne).2 hmem) hj

/-- A release of an item that is free changes nothing. -/
theorem unlockItem_free (h : item_locks.get key = none) (given : Reason) :
    unlockItem item_locks key given = item_locks := by
  unfold unlockItem
  rw [h]

/-- A release of an item that is held changes its entry. -/
theorem unlockItem_ne {held : Held} (h : item_locks.get key = some held) (hpos : 0 < held.count)
    (given : Reason) : unlockItem item_locks key given ≠ item_locks := by
  intro heq
  have hafter := get_unlockItem h given key
  rw [heq, if_pos rfl, h] at hafter
  split_ifs at hafter with hlast
  have hcount := congrArg Held.count (Option.some.inj hafter)
  dsimp only at hcount
  omega

/-! ## The machine -/

/-- A `ServerStore`: its item, and the thread that built it. -/
structure ServerStore where
  /-- The register and the id of its item. -/
  item : LockKey
  /-- `thread_id`, read in the constructor. -/
  thread_id : Thread
deriving DecidableEq

/-- A with-block that has been entered. -/
structure Block where
  /-- The thread inside its body. -/
  thread : Thread
  /-- The store that it is on. -/
  store : ServerStore
deriving DecidableEq

/-- The state of the machine. -/
structure LockState where
  /-- `item_locks`. -/
  item_locks : ItemLocks
  /-- The blocks entered and not left, those of one thread the innermost first. -/
  blocks : List Block
  /-- The `__enter__` that a thread is in, with the attempts that have failed. -/
  entering : Thread → Option (ServerStore × ℕ)
  /-- The grants of `lock_item` called directly that have not been released. -/
  direct : List Grant

/-- `LOCK_MAX_RETRY`. -/
def LOCK_MAX_RETRY : ℕ := 50

/-- The actions. -/
inductive LockAct where
  /-- A thread comes to a with-block and makes its first attempt. -/
  | enter (thread : Thread) (store : ServerStore)
  /-- It makes the next attempt, after its sleep. -/
  | retry (thread : Thread)
  /-- It leaves its innermost block, normally or by an exception. -/
  | leave (thread : Thread)
  /-- `lock_item`, called directly. -/
  | lock (key : LockKey) (reason : Reason)
  /-- `unlock_item`, called directly. -/
  | unlock (key : LockKey) (reason : Reason)

/-- One attempt of `__enter__`, after so many that have failed. The last one that fails raises
`GnrDaemonLocked`. -/
def LockState.attempt (s : LockState) (thread : Thread) (store : ServerStore) (failed : ℕ) :
    LockState :=
  let locked := lockItem s.item_locks store.item (.ident store.thread_id)
  { s with
    item_locks := locked.1
    blocks := if locked.2 then ⟨thread, store⟩ :: s.blocks else s.blocks
    entering := fun t =>
      if t = thread then
        if locked.2 then none
        else if failed < LOCK_MAX_RETRY then some (store, failed + 1)
        else none
      else s.entering t }

/-- One action. A thread inside `__enter__` does nothing else. -/
def lockStep (s : LockState) : LockAct → Option LockState
  | .enter thread store =>
    match s.entering thread with
    | some _ => none
    | none => some (s.attempt thread store 0)
  | .retry thread =>
    match s.entering thread with
    | none => none
    | some (store, failed) => some (s.attempt thread store failed)
  | .leave thread =>
    match s.entering thread, s.blocks.find? fun block => decide (block.thread = thread) with
    | none, some block =>
      some { s with
        item_locks := unlockItem s.item_locks block.store.item (.ident block.store.thread_id)
        blocks := s.blocks.erase block }
    | _, _ => none
  | .lock key reason =>
    let locked := lockItem s.item_locks key reason
    some { s with
      item_locks := locked.1
      direct := if locked.2 then (key, reason) :: s.direct else s.direct }
  | .unlock key reason =>
    some { s with
      item_locks := unlockItem s.item_locks key reason
      direct := s.direct.erase (key, reason) }

/-- No item is locked, and no thread is in a block. -/
def unlocked : LockState := ⟨∅, [], fun _ => none, []⟩

end GenropyAsgi.Site
