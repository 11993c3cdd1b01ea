import GenropyAsgi.Site.StoreLock

/-!
# Exclusion

What the lock of a store is for, `Excludes`, and when the code gives it. A block holds the lock
under the thread that built its store. As long as every attempt that is granted comes from that
thread, and every direct `unlock_item` of a held item releases a direct grant of the same reason,
the lock accounts for the blocks and the direct grants together, and `Excludes` follows from the
account. One step that does neither breaks it: the invariant of the runs that meet the condition is
`Sound`, and `excludes_iff_paired` is the equivalence.
-/

namespace GenropyAsgi.Site

open Library

/-- The grant of a block: its item, held by the thread inside. -/
def Block.grant (block : Block) : Grant := (block.store.item, .ident block.thread)

/-- What has been granted and not yet released. -/
def LockState.outstanding (s : LockState) : List Grant := s.blocks.map Block.grant ++ s.direct

/-- A store lock excludes. -/
structure Excludes (s : LockState) : Prop where
  /-- The bodies of one item that have been entered are one thread's. -/
  exclusion : ∀ block ∈ s.blocks, ∀ block' ∈ s.blocks, block.store.item = block'.store.item →
    block.thread = block'.thread
  /-- The thread in a body would be granted the item again. -/
  reenters : ∀ block ∈ s.blocks,
    (lockItem s.item_locks block.store.item (.ident block.thread)).2 = true
  /-- The reason of a direct grant would be granted the item again. -/
  regrants : ∀ grant ∈ s.direct, (lockItem s.item_locks grant.1 grant.2).2 = true
  /-- The count of a held item is the nesting depth of its holder. -/
  count : ∀ key held, s.item_locks.get key = some held →
    held.count = s.outstanding.count (key, held.reason)
  /-- An item is free exactly when every grant of it has been left or released. -/
  free : ∀ key, s.item_locks.get key = none ↔ ∀ grant ∈ s.outstanding, grant.1 ≠ key

/-- The item is held, if at all, by another reason. -/
def NotHeldBy (item_locks : ItemLocks) (key : LockKey) (reason : Reason) : Prop :=
  ∀ held, item_locks.get key = some held → held.reason ≠ reason

/-- An action whose release, by a reason that does not hold the item, changes nothing. -/
def Harmless (s : LockState) : LockAct → Prop
  | .leave thread => ∀ block, s.blocks.find? (fun block => decide (block.thread = thread)) =
      some block → NotHeldBy s.item_locks block.store.item (.ident block.store.thread_id) →
      unlockItem s.item_locks block.store.item (.ident block.store.thread_id) = s.item_locks
  | .unlock key reason => NotHeldBy s.item_locks key reason →
      unlockItem s.item_locks key reason = s.item_locks
  | _ => True

/-- An attempt of a thread that built the store, or one that is refused: the item is held, and not
by the thread that built the store. -/
def OwnAttempt (s : LockState) (thread : Thread) (store : ServerStore) : Prop :=
  store.thread_id = thread ∨
    (lockItem s.item_locks store.item (.ident store.thread_id)).2 = false

/-- The pairing on which the lock relies. -/
def Paired (s : LockState) : LockAct → Prop
  | .enter thread store => s.entering thread = none → OwnAttempt s thread store
  | .retry thread => ∀ store failed, s.entering thread = some (store, failed) →
      OwnAttempt s thread store
  | .unlock key reason => s.item_locks.get key = none ∨ (key, reason) ∈ s.direct
  | _ => True

/-! ## The account of the blocks and the direct grants -/

/-- The locks account for what is outstanding, and a block is on a store of its own thread. -/
structure Sound (s : LockState) : Prop where
  accounts : Accounts s.item_locks s.outstanding
  own : ∀ block ∈ s.blocks, block.store.thread_id = block.thread

variable {s s' : LockState}

/-- Nothing is outstanding at the start. -/
theorem sound_unlocked : Sound unlocked where
  accounts := accounts_empty
  own := fun _ h => absurd h List.not_mem_nil

/-- The grant of a block is outstanding. -/
theorem LockState.grant_mem_outstanding {block : Block} (h : block ∈ s.blocks) :
    block.grant ∈ s.outstanding :=
  List.mem_append_left _ (List.mem_map_of_mem h)

/-- What is outstanding would be granted again. -/
theorem Accounts.regrants {item_locks : ItemLocks} {grants : List Grant} {grant : Grant}
    (h : Accounts item_locks grants) (hgrant : grant ∈ grants) :
    (lockItem item_locks grant.1 grant.2).2 = true :=
  lockItem_granted_iff.2 (h.holder grant hgrant)

/-- Locks that account for what is outstanding exclude. -/
theorem Sound.excludes (h : Sound s) : Excludes s where
  exclusion := by
    intro block hblock block' hblock' hitem
    have hheld := h.accounts.held (LockState.grant_mem_outstanding hblock)
    have hreason := h.accounts.holder _ (LockState.grant_mem_outstanding hblock') _
      (hitem ▸ hheld)
    exact Reason.ident.inj hreason
  reenters := fun _ hblock => h.accounts.regrants (LockState.grant_mem_outstanding hblock)
  regrants := fun _ hgrant => h.accounts.regrants (List.mem_append_right _ hgrant)
  count := h.accounts.count
  free := h.accounts.free

/-- The block that a thread leaves is one of its own. -/
theorem find_block {thread : Thread} {block : Block}
    (h : s.blocks.find? (fun block => decide (block.thread = thread)) = some block) :
    block ∈ s.blocks ∧ block.thread = thread :=
  ⟨List.mem_of_find?_eq_some h, by simpa using List.find?_some h⟩

/-- A grant that is erased leaves the others. -/
theorem erase_perm {grants rest : List Grant} {grant : Grant} (h : grants.Perm (grant :: rest)) :
    (grants.erase grant).Perm rest := by
  have herase := h.erase grant
  rwa [List.erase_cons_head] at herase

/-! ## The steps that are paired -/

/-- An attempt of its own thread keeps the account. -/
theorem Sound.attempt (h : Sound s) {thread : Thread} {store : ServerStore}
    (hown : OwnAttempt s thread store) (failed : ℕ) : Sound (s.attempt thread store failed) := by
  cases hgranted : (lockItem s.item_locks store.item (.ident store.thread_id)).2 with
  | false =>
    have hsame := lockItem_refused hgranted
    refine ⟨?_, ?_⟩
    · simpa [LockState.attempt, LockState.outstanding, hgranted, hsame] using h.accounts
    · simpa [LockState.attempt, hgranted] using h.own
  | true =>
    -- The grant is the thread's, since the store is.
    have hthread : store.thread_id = thread := by
      rcases hown with hthread | hrefused
      · exact hthread
      · rw [hgranted] at hrefused
        cases hrefused
    have haccounts := h.accounts.lock hgranted
    refine ⟨?_, ?_⟩
    · simp only [LockState.attempt, LockState.outstanding, hgranted, if_true]
      rw [hthread] at haccounts ⊢
      exact haccounts
    · simp only [LockState.attempt, hgranted, if_true]
      exact List.forall_mem_cons.2 ⟨hthread, h.own⟩

/-- Leaving a block keeps the account. -/
theorem Sound.leave (h : Sound s) {block : Block} (hblock : block ∈ s.blocks) (given : Reason) :
    Sound { s with
      item_locks := unlockItem s.item_locks block.store.item given
      blocks := s.blocks.erase block } := by
  refine ⟨?_, fun block' hblock' => h.own block' (List.mem_of_mem_erase hblock')⟩
  have hrest : s.outstanding.Perm
      (block.grant :: ((s.blocks.erase block).map Block.grant ++ s.direct)) :=
    ((List.perm_cons_erase hblock).map Block.grant).append_right s.direct
  exact (h.accounts.unlock (LockState.grant_mem_outstanding hblock) given).perm (erase_perm hrest)

/-- A direct lock keeps the account. -/
theorem Sound.lock (h : Sound s) (key : LockKey) (reason : Reason) :
    Sound { s with
      item_locks := (lockItem s.item_locks key reason).1
      direct := if (lockItem s.item_locks key reason).2 then (key, reason) :: s.direct
        else s.direct } := by
  refine ⟨?_, h.own⟩
  cases hgranted : (lockItem s.item_locks key reason).2 with
  | false =>
    have hsame := lockItem_refused hgranted
    simpa [LockState.outstanding, hsame] using h.accounts
  | true => exact (h.accounts.lock hgranted).perm List.perm_middle.symm

/-- A direct unlock of an item that is free, or of a direct grant, keeps the account. -/
theorem Sound.unlock (h : Sound s) {key : LockKey} {reason : Reason}
    (hpaired : s.item_locks.get key = none ∨ (key, reason) ∈ s.direct) :
    Sound { s with
      item_locks := unlockItem s.item_locks key reason
      direct := s.direct.erase (key, reason) } := by
  refine ⟨?_, h.own⟩
  rcases hpaired with hfree | hdirect
  · have hnone : (key, reason) ∉ s.direct := fun hmem =>
      (h.accounts.free key).1 hfree _ (List.mem_append_right _ hmem) rfl
    have haccounts := h.accounts
    simp only [LockState.outstanding, unlockItem_free hfree, List.erase_of_not_mem hnone]
      at haccounts ⊢
    exact haccounts
  · have hrest : s.outstanding.Perm
        ((key, reason) :: (s.blocks.map Block.grant ++ s.direct.erase (key, reason))) :=
      ((List.perm_cons_erase hdirect).append_left _).trans List.perm_middle
    exact (h.accounts.unlock (List.mem_append_right _ hdirect) reason).perm (erase_perm hrest)

/-- What an action can do. -/
theorem lockStep_cases {a : LockAct} (h : lockStep s a = some s') :
    (∃ thread store, a = .enter thread store ∧ s.entering thread = none ∧
      s' = s.attempt thread store 0) ∨
    (∃ thread store failed, a = .retry thread ∧ s.entering thread = some (store, failed) ∧
      s' = s.attempt thread store failed) ∨
    (∃ thread block, a = .leave thread ∧
      s.blocks.find? (fun block => decide (block.thread = thread)) = some block ∧
      s' = { s with
        item_locks := unlockItem s.item_locks block.store.item (.ident block.store.thread_id)
        blocks := s.blocks.erase block }) ∨
    (∃ key reason, a = .lock key reason ∧
      s' = { s with
        item_locks := (lockItem s.item_locks key reason).1
        direct := if (lockItem s.item_locks key reason).2 then (key, reason) :: s.direct
          else s.direct }) ∨
    (∃ key reason, a = .unlock key reason ∧
      s' = { s with
        item_locks := unlockItem s.item_locks key reason
        direct := s.direct.erase (key, reason) }) := by
  cases a with
  | enter thread store =>
    left
    simp only [lockStep] at h
    cases hentering : s.entering thread with
    | none =>
      rw [hentering] at h
      exact ⟨thread, store, rfl, hentering, (Option.some.inj h).symm⟩
    | some _ =>
      rw [hentering] at h
      cases h
  | retry thread =>
    right; left
    simp only [lockStep] at h
    cases hentering : s.entering thread with
    | none =>
      rw [hentering] at h
      cases h
    | some at_ =>
      rw [hentering] at h
      exact ⟨thread, at_.1, at_.2, rfl, hentering, (Option.some.inj h).symm⟩
  | leave thread =>
    right; right; left
    simp only [lockStep] at h
    split at h
    · rename_i block hentering hfind
      exact ⟨thread, block, rfl, hfind, (Option.some.inj h).symm⟩
    · cases h
  | lock key reason =>
    right; right; right; left
    exact ⟨key, reason, rfl, (Option.some.inj h).symm⟩
  | unlock key reason =>
    right; right; right; right
    exact ⟨key, reason, rfl, (Option.some.inj h).symm⟩

/-- A paired step keeps the account. -/
theorem Sound.step (h : Sound s) {a : LockAct} (hpaired : Paired s a)
    (hstep : lockStep s a = some s') : Sound s' := by
  obtain ⟨thread, store, rfl, hentering, rfl⟩ | ⟨thread, store, failed, rfl, hentering, rfl⟩ |
    ⟨thread, block, rfl, hfind, rfl⟩ | ⟨key, reason, rfl, rfl⟩ | ⟨key, reason, rfl, rfl⟩ :=
    lockStep_cases hstep
  · exact h.attempt (hpaired hentering) 0
  · exact h.attempt (hpaired store failed hentering) failed
  · exact h.leave (find_block hfind).1 _
  · exact h.lock key reason
  · exact h.unlock hpaired

/-- The release of a paired step is harmless. -/
theorem Sound.harmless (h : Sound s) {a : LockAct} (hpaired : Paired s a) : Harmless s a := by
  cases a with
  | enter => trivial
  | retry => trivial
  | lock => trivial
  | leave thread =>
    -- The reason that a block releases holds its item.
    intro block hfind hnot
    have hblock := (find_block hfind).1
    have hheld := h.accounts.held (LockState.grant_mem_outstanding hblock)
    exact absurd (congrArg Reason.ident (h.own block hblock).symm) (hnot _ hheld)
  | unlock key reason =>
    intro hnot
    rcases hpaired with hfree | hdirect
    · exact unlockItem_free hfree reason
    · have hheld := h.accounts.held (List.mem_append_right (s.blocks.map Block.grant) hdirect)
      exact absurd rfl (hnot _ hheld)

/-! ## The steps that are not -/

/-- After an attempt by a thread that did not build the store and was granted, the thread could not
enter the item again. -/
theorem own_of_excludes {thread : Thread} {store : ServerStore} {failed : ℕ}
    (h : Excludes (s.attempt thread store failed)) : OwnAttempt s thread store := by
  cases hgranted : (lockItem s.item_locks store.item (.ident store.thread_id)).2 with
  | false => exact .inr hgranted
  | true =>
    left
    have hblock : (⟨thread, store⟩ : Block) ∈ (s.attempt thread store failed).blocks := by
      simp only [LockState.attempt, hgranted, if_true]
      exact List.mem_cons_self
    have hagain := lockItem_granted_iff.1 (h.reenters _ hblock)
    have hafter := get_lockItem hgranted store.item
    rw [if_pos rfl] at hafter
    exact Reason.ident.inj (hagain _ hafter)

/-- After a release of a held item that is harmless, and not of a direct grant, the count is one
less than what is outstanding. -/
theorem Sound.paired_of_excludes (h : Sound s) {key : LockKey} {reason : Reason}
    (hafter : Excludes { s with
      item_locks := unlockItem s.item_locks key reason
      direct := s.direct.erase (key, reason) })
    (hharmless : Harmless s (.unlock key reason)) :
    s.item_locks.get key = none ∨ (key, reason) ∈ s.direct := by
  by_contra hnot
  obtain ⟨hheld, hdirect⟩ := not_or.1 hnot
  obtain ⟨held, hheld⟩ := Option.ne_none_iff_exists'.1 hheld
  have hcount := h.accounts.count key held hheld
  have hpos : 0 < held.count := by
    by_contra hzero
    -- A held item is one of which something is outstanding, so its count is positive.
    have hfree := (h.accounts.free key).2 (fun grant hgrant hkey => by
      have hreason := h.accounts.holder grant hgrant held (by rw [hkey]; exact hheld)
      have hmem : (key, held.reason) ∈ s.outstanding := by
        rw [hreason, ← hkey]
        exact hgrant
      have := List.count_pos_iff.2 hmem
      omega)
    rw [hheld] at hfree
    cases hfree
  -- The release changes the entry, so the reason holds the item.
  have hreason : held.reason = reason := by
    by_contra hne
    refine unlockItem_ne hheld hpos reason (hharmless fun held' hheld' => ?_)
    rw [hheld] at hheld'
    cases hheld'
    exact hne
  -- Nothing has become less outstanding, but the count has gone down.
  have hsame : s.direct.erase (key, reason) = s.direct := List.erase_of_not_mem hdirect
  have hget := get_unlockItem hheld reason key
  rw [if_pos rfl] at hget
  by_cases hlast : held.count - 1 = 0
  · rw [if_pos hlast] at hget
    have hnone := (hafter.free key).1 hget
    simp only [LockState.outstanding, hsame] at hnone
    have hmem : (key, held.reason) ∈ s.outstanding := by
      apply List.count_pos_iff.1
      omega
    exact hnone _ hmem rfl
  · rw [if_neg hlast] at hget
    have hless := hafter.count key _ hget
    simp only [LockState.outstanding, hsame] at hless
    simp only [LockState.outstanding] at hcount
    omega

/-- A step after which the lock excludes, and whose release is harmless, is paired. -/
theorem Sound.paired (h : Sound s) {a : LockAct} (hstep : lockStep s a = some s')
    (hafter : Excludes s') (hharmless : Harmless s a) : Paired s a := by
  obtain ⟨thread, store, rfl, hentering, rfl⟩ | ⟨thread, store, failed, rfl, hentering, rfl⟩ |
    ⟨thread, block, rfl, hfind, rfl⟩ | ⟨key, reason, rfl, rfl⟩ | ⟨key, reason, rfl, rfl⟩ :=
    lockStep_cases hstep
  · exact fun _ => own_of_excludes hafter
  · intro store' failed' hentering'
    rw [hentering] at hentering'
    cases hentering'
    exact own_of_excludes hafter
  · trivial
  · trivial
  · exact h.paired_of_excludes hafter hharmless

/-- An action that is not enabled is paired. -/
theorem paired_of_disabled {a : LockAct} (h : lockStep s a = none) : Paired s a := by
  cases a with
  | enter thread store =>
    intro hentering
    simp only [lockStep] at h
    rw [hentering] at h
    cases h
  | retry thread =>
    intro store failed hentering
    simp only [lockStep] at h
    rw [hentering] at h
    cases h
  | leave => trivial
  | lock => trivial
  | unlock => cases h

/-- **A store lock excludes exactly where it is paired.** From the state in which nothing is locked,
and for every interleaving: in every state the bodies of an item that have been entered are one
thread's, which may enter it again, the count of an item is the nesting depth of its holder and the
item is free exactly when all its grants have been left, and a release by a reason that does not
hold the item changes nothing, if and only if every granted attempt is on a store that its own
thread built and every direct `unlock_item` of a held item releases a direct grant of its reason. -/
theorem excludes_iff_paired (acts : List LockAct) :
    Throughout lockStep Excludes unlocked acts ∧ Meets lockStep Harmless unlocked acts ↔
      Meets lockStep Paired unlocked acts :=
  throughout_and_meets_iff_meets (fun _ h => h.excludes) (fun _ _ h hpaired => h.harmless hpaired)
    (fun _ _ _ h hpaired hstep => h.step hpaired hstep) (fun _ _ h => paired_of_disabled h)
    (fun _ _ _ h hstep hafter hharmless => h.paired hstep hafter hharmless) sound_unlocked

/-- A store that thread 1 built is entered by thread 1, then by thread 2 while thread 1 is inside:
both are in a body of the item. And an item locked for one reason is freed by an unlock for
another. -/
theorem lock_does_not_exclude :
    ¬ Throughout lockStep Excludes unlocked
        [.enter 1 ⟨(.page, "p"), 1⟩, .enter 2 ⟨(.page, "p"), 1⟩] ∧
      ¬ Meets lockStep Harmless unlocked
        [.lock (.page, "p") (.text "a"), .unlock (.page, "p") (.text "b")] := by
  constructor
  · rintro ⟨_, h⟩
    obtain ⟨_, h⟩ := h _ rfl
    have hlast := h _ rfl
    have hthread := hlast.exclusion ⟨2, (.page, "p"), 1⟩ (by decide) ⟨1, (.page, "p"), 1⟩
      (by decide) rfl
    cases hthread
  · rintro ⟨_, h⟩
    obtain ⟨hsame, _⟩ := h _ rfl
    have hheld : NotHeldBy (lockItem ∅ (.page, "p") (.text "a")).1 (.page, "p") (.text "b") := by
      intro held hheld
      cases hheld
      decide
    exact absurd (hsame hheld) (unlockItem_ne rfl (by decide) _)

end GenropyAsgi.Site
