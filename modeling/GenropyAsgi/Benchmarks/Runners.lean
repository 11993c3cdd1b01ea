import Mathlib.Data.List.Count
import GenropyAsgi.Benchmarks.LoadEngine

/-!
# One user's calls

The tasks that a user's thread has recorded, and the one at which it raised, are those that it is
done with, in the order in which they were put. `Runner.Sound.moved` says what one act of the thread
makes of its account.
-/

namespace GenropyAsgi.Benchmarks.LoadEngine

open Library

/-- The task of a recorded row. -/
def CallRow.task (row : CallRow) : Task := ⟨row.scheduled_at, row.phase⟩

/-- A row that bears one kind of error at most. -/
def CallRow.Classified (row : CallRow) : Prop := row.app_error = "" ∨ row.transport_error = ""

/-- `send` returns one kind of error at most. -/
theorem classified_callRow (label : String) (task : Task) (started_at completed_at : ℚ)
    (first second : Attempt) :
    (callRow label task started_at completed_at (send first second)).Classified := by
  have hanswered : ∀ status marked, (send.answered status marked).transport_error = none := by
    intro status marked
    unfold send.answered
    split_ifs <;> rfl
  unfold CallRow.Classified callRow
  dsimp only
  cases first with
  | answers status marked =>
    right
    rw [send, hanswered, Option.getD_none]
  | raises failure =>
    cases second with
    | answers status marked =>
      right
      rw [send, hanswered, Option.getD_none]
    | raises failure' => exact Or.inl rfl

namespace Runner

variable {label : String} {r r' : Runner} {act : RunnerAct}

/-- The tasks ever put. -/
def tasks (r : Runner) : List Task := r.inbox.puts.filterMap id

/-- The tasks recorded, and the one at which the thread raised. -/
def settled (r : Runner) : List Task := r.recorded.map CallRow.task ++ r.lost

/-- The item that the thread is about to be done with. -/
def leaving (r : Runner) : List (Option Task) :=
  match r.stage with
  | .finishing _ => r.inbox.taken.toList
  | _ => []

/-- The item taken, until it is recorded or lost. -/
def inHand (r : Runner) : List (Option Task) :=
  match r.stage with
  | .finishing _ => []
  | _ => r.inbox.taken.toList

/-- The tasks to come: the one in hand and those queued. -/
def toCome (r : Runner) : List Task := (r.inHand ++ r.inbox.items).filterMap id

/-- A call between `count_started` and its end. -/
def onWire (r : Runner) : ℕ :=
  match r.stage with
  | .started _ => 1
  | .answered .. => 1
  | _ => 0

/-- What a stage says of the item taken, and of the answer read. -/
def StageFits (r : Runner) : Prop :=
  match r.stage with
  | .waiting => r.inbox.taken = none
  | .took => r.inbox.taken.isSome
  | .started _ => ∃ task, r.inbox.taken = some (some task)
  | .answered _ _ answer =>
    (∃ task, r.inbox.taken = some (some task)) ∧ ∃ first second, answer = send first second
  | .finishing _ => r.inbox.taken.isSome
  | .ended => r.inbox.taken = none

/-- The account of a thread. -/
structure Sound (label : String) (r : Runner) : Prop where
  /-- What is settled is what the thread is done with, and about to be done with. -/
  settled_eq : r.settled = (r.inbox.finished ++ r.leaving).filterMap id
  /-- The stage fits what is taken. -/
  stage : r.StageFits
  /-- It raises once, and is at its end then. -/
  lost : r.lost = [] ∨ r.lost.length = 1 ∧ (r.stage = .finishing false ∨ r.stage = .ended)
  /-- The rows are the user's, with one kind of error at most. -/
  rows : ∀ row ∈ r.recorded, row.user = label ∧ row.Classified

/-- A new thread. -/
theorem sound_new (label : String) : Sound label .new where
  settled_eq := rfl
  stage := rfl
  lost := Or.inl rfl
  rows := fun _ h => absurd h List.not_mem_nil

/-- One more item changes nothing of the account but what is to come. -/
theorem Sound.put (h : r.Sound label) (x : Option Task) :
    Sound label { r with inbox := r.inbox.put x } where
  settled_eq := h.settled_eq
  stage := h.stage
  lost := h.lost
  rows := h.rows

/-- The tasks once one more item is put. -/
theorem tasks_put (r : Runner) (x : Option Task) :
    ({ r with inbox := r.inbox.put x } : Runner).tasks = r.tasks ++ x.toList := by
  unfold tasks TaskQueue.put
  rw [List.filterMap_append]
  cases x <;> rfl

/-- What is to come once one more item is put. -/
theorem toCome_put (r : Runner) (x : Option Task) :
    ({ r with inbox := r.inbox.put x } : Runner).toCome = r.toCome ++ x.toList := by
  unfold toCome inHand TaskQueue.put
  rw [← List.append_assoc, List.filterMap_append]
  cases x <;> rfl

/-- What was put is settled or is to come, in the order in which it was put. -/
theorem Sound.tasks_eq (h : r.Sound label) : r.tasks = r.settled ++ r.toCome := by
  have hsplit : r.inbox.taken.toList = r.leaving ++ r.inHand := by
    unfold leaving inHand
    split
    · rw [List.append_nil]
    · rfl
  unfold tasks toCome
  rw [r.inbox.puts_eq, h.settled_eq, hsplit, ← List.filterMap_append]
  simp only [List.append_assoc]

/-- With no task unfinished, all that was put is settled. -/
theorem toCome_of_pending (h : r.pending = 0) : r.toCome = [] := by
  obtain ⟨hitems, htaken⟩ := TaskQueue.unfinished_eq_zero.1 h
  have hhand : r.inHand = [] := by
    unfold inHand
    rw [htaken]
    split <;> rfl
  unfold toCome
  rw [hhand, hitems]
  rfl

/-- What the acts of a thread make of it. -/
inductive Steps (label : String) (r : Runner) : RunnerAct → Runner → Prop where
  /-- An item is taken. -/
  | get {inbox : TaskQueue (Option Task)} (hstage : r.stage = .waiting)
      (hget : r.inbox.get = some inbox) : Steps label r .get { r with inbox, stage := .took }
  /-- The call is started. -/
  | start {now : ℚ} {task : Task} (hstage : r.stage = .took)
      (htaken : r.inbox.taken = some (some task)) :
      Steps label r (.start now) { r with stage := .started now }
  /-- The thread is told to end. -/
  | quit (hstage : r.stage = .took) (htaken : r.inbox.taken = some none) :
      Steps label r .quit { r with stage := .finishing false }
  /-- The answer is read. -/
  | answer {now started_at : ℚ} {first second : Attempt} (hstage : r.stage = .started started_at) :
      Steps label r (.answer now first second)
        { r with stage := .answered started_at now (send first second) }
  /-- The call raises. -/
  | raises {started_at : ℚ} {task : Task} (hstage : r.stage = .started started_at)
      (htaken : r.inbox.taken = some (some task)) :
      Steps label r .raises { r with stage := .finishing false, lost := r.lost ++ [task] }
  /-- The call is recorded. -/
  | record {written : Bool} {row : CallRow} (hrow : r.row label = some row) :
      Steps label r (.record written)
        { r with stage := .finishing written, recorded := r.recorded ++ [row] }
  /-- The item is done with. -/
  | done {inbox : TaskQueue (Option Task)} {goes_on : Bool} (hstage : r.stage = .finishing goes_on)
      (hdone : r.inbox.task_done = some inbox) :
      Steps label r .done { r with inbox, stage := if goes_on then .waiting else .ended }

/-- The acts are these. -/
theorem steps_of_step (h : r.step label act = some r') : Steps label r act r' := by
  cases act with
  | get =>
    dsimp only [step] at h
    split at h
    · rename_i hstage
      obtain ⟨inbox, hget, rfl⟩ := Option.map_eq_some_iff.1 h
      exact .get hstage hget
    · cases h
  | start now =>
    dsimp only [step] at h
    split at h
    · rename_i hstage htaken
      cases h
      exact .start hstage htaken
    · cases h
  | quit =>
    dsimp only [step] at h
    split at h
    · rename_i hstage htaken
      cases h
      exact .quit hstage htaken
    · cases h
  | answer now first second =>
    dsimp only [step] at h
    split at h
    · rename_i hstage
      cases h
      exact .answer hstage
    · cases h
  | raises =>
    dsimp only [step] at h
    split at h
    · rename_i hstage htaken
      cases h
      exact .raises hstage htaken
    · cases h
  | record written =>
    obtain ⟨row, hrow, rfl⟩ := Option.map_eq_some_iff.1 h
    exact .record hrow
  | done =>
    dsimp only [step] at h
    split at h
    · rename_i hstage
      obtain ⟨inbox, hdone, rfl⟩ := Option.map_eq_some_iff.1 h
      exact .done hstage hdone
    · cases h

/-- The row that an act records. -/
def reported (label : String) (r : Runner) : RunnerAct → Option CallRow
  | .record _ => r.row label
  | _ => none

/-- The task at which an act raises. -/
def dropped (r : Runner) : RunnerAct → Option Task
  | .raises => r.inbox.taken.join
  | _ => none

/-- The calls that an act starts. -/
def starts : RunnerAct → ℕ
  | .start _ => 1
  | _ => 0

/-- A row that is to be recorded. -/
theorem row_eq_some {row : CallRow} (hr : r.Sound label) (h : r.row label = some row) :
    ∃ started_at completed_at answer,
      r.stage = .answered started_at completed_at answer ∧ r.inbox.taken = some (some row.task) ∧
        row.user = label ∧ row.Classified := by
  have hstage := hr.stage
  unfold Runner.row at h
  unfold StageFits at hstage
  split at h
  · rename_i started_at completed_at answer task hs htaken
    rw [hs] at hstage
    obtain ⟨_, first, second, rfl⟩ := hstage
    cases h
    exact ⟨_, _, _, hs, htaken, rfl, classified_callRow ..⟩
  · cases h

/-- What one act makes of the account of a thread. -/
structure Moved (label : String) (r r' : Runner) (act : RunnerAct) : Prop where
  /-- The account is kept. -/
  sound : r'.Sound label
  /-- A row is recorded at most. -/
  recorded : r'.recorded = r.recorded ++ (r.reported label act).toList
  /-- A task is lost at most. -/
  lost : r'.lost = r.lost ++ (r.dropped act).toList
  /-- The row is the one of a task that was to come. -/
  rows : ∀ row ∈ r.reported label act, row.task ∈ r.toCome ∧ row.Classified
  /-- Nothing is put. -/
  tasks : r'.tasks = r.tasks
  /-- What is to come was to come before. -/
  toCome : ∀ task ∈ r'.toCome, task ∈ r.toCome
  /-- No more is unfinished. -/
  pending : r'.pending ≤ r.pending
  /-- A call is on the wire from its start to its end. -/
  onWire : r'.onWire + (r.reported label act).toList.length + (r.dropped act).toList.length =
    r.onWire + starts act

/-- A thread that is not at its end has lost nothing. -/
theorem Sound.lost_eq_nil (hr : r.Sound label) (hfinishing : r.stage ≠ .finishing false)
    (hended : r.stage ≠ .ended) : r.lost = [] := by
  rcases hr.lost with hlost | ⟨_, hs | hs⟩
  · exact hlost
  · exact absurd hs hfinishing
  · exact absurd hs hended

/-- With nothing to leave, the thread is done with what is settled. -/
theorem Sound.settled_eq_finished (hr : r.Sound label) (hleaving : r.leaving = []) :
    r.settled = r.inbox.finished.filterMap id := by
  rw [hr.settled_eq, hleaving, List.append_nil]

/-- The task in hand is settled, and its item is about to be left. -/
theorem Sound.settled_leaving (hr : r.Sound label) (hleaving : r.leaving = []) {x : Option Task}
    (htaken : r.inbox.taken = some x) (hinbox : r'.inbox = r.inbox)
    (hleaving' : r'.leaving = r'.inbox.taken.toList)
    (hsettled : r'.settled = r.settled ++ x.toList) :
    r'.settled = (r'.inbox.finished ++ r'.leaving).filterMap id := by
  rw [hsettled, hr.settled_eq_finished hleaving, hleaving', hinbox, htaken, Option.toList_some,
    List.filterMap_append]
  cases x <;> rfl

/-- With nothing in hand any more, what is to come is what is queued. -/
theorem mem_toCome_of_inHand {task : Task} (h : task ∈ r'.toCome)
    (hitems : r'.inbox.items = r.inbox.items) (hhand : r'.inHand = []) : task ∈ r.toCome := by
  unfold toCome at h ⊢
  rw [hhand, hitems, List.nil_append] at h
  rw [List.filterMap_append]
  exact List.mem_append_right _ h

/-- An act that records nothing and loses nothing. -/
theorem Moved.silent (hsound : r'.Sound label) (hreported : r.reported label act = none)
    (hdropped : r.dropped act = none) (hrecorded : r'.recorded = r.recorded)
    (hlost : r'.lost = r.lost) (htasks : r'.tasks = r.tasks)
    (htoCome : ∀ task ∈ r'.toCome, task ∈ r.toCome) (hpending : r'.pending ≤ r.pending)
    (honWire : r'.onWire = r.onWire + starts act) : Moved label r r' act where
  sound := hsound
  recorded := by rw [hreported, hrecorded, Option.toList_none, List.append_nil]
  lost := by rw [hdropped, hlost, Option.toList_none, List.append_nil]
  rows := by
    rw [hreported]
    exact fun row hrow => absurd hrow (Option.not_mem_none row)
  tasks := htasks
  toCome := htoCome
  pending := hpending
  onWire := by
    rw [hreported, hdropped, honWire]
    rfl

/-- An item is taken: it was to come, and still is. -/
theorem Sound.moved_get (hr : r.Sound label) {inbox : TaskQueue (Option Task)}
    (hs : r.stage = .waiting) (hget : r.inbox.get = some inbox) :
    Moved label r { r with inbox, stage := .took } .get := by
  obtain ⟨x, htaken, htaken', hitems, hputs, hfinished, hcount⟩ := TaskQueue.get_eq_some hget
  have hlost : r.lost = [] := hr.lost_eq_nil (by rw [hs]; nofun) (by rw [hs]; nofun)
  have hleaving : r.leaving = [] := by simp only [leaving, hs]
  have hcome : ({ r with inbox, stage := .took } : Runner).toCome = r.toCome := by
    simp only [Runner.toCome, inHand, hs, htaken, htaken', hitems, Option.toList_none,
      Option.toList_some, List.nil_append, List.cons_append]
  have hsound : Sound label { r with inbox, stage := .took } := {
    settled_eq := by
      simp only [leaving, hfinished, List.append_nil]
      exact hr.settled_eq_finished hleaving
    stage := by
      simp only [StageFits, htaken', Option.isSome_some]
    lost := Or.inl hlost
    rows := hr.rows }
  refine .silent hsound rfl rfl rfl rfl ?_ (fun task htask => hcome ▸ htask) hcount.le ?_
  · simp only [Runner.tasks, hputs]
  · simp only [Runner.onWire, hs, starts]

/-- A call is started. -/
theorem Sound.moved_start (hr : r.Sound label) {now : ℚ} {task : Task} (hs : r.stage = .took)
    (htaken : r.inbox.taken = some (some task)) :
    Moved label r { r with stage := .started now } (.start now) := by
  have hlost : r.lost = [] := hr.lost_eq_nil (by rw [hs]; nofun) (by rw [hs]; nofun)
  have hleaving : r.leaving = [] := by simp only [leaving, hs]
  have hsound : Sound label { r with stage := .started now } := {
    settled_eq := by
      simp only [leaving, List.append_nil]
      exact hr.settled_eq_finished hleaving
    stage := ⟨task, htaken⟩
    lost := Or.inl hlost
    rows := hr.rows }
  refine .silent hsound rfl rfl rfl rfl rfl ?_ le_rfl ?_
  · simp only [Runner.toCome, inHand, hs]
    exact fun _ htask => htask
  · simp only [Runner.onWire, hs, starts]

/-- The thread is told to end: there is no task in what it took. -/
theorem Sound.moved_quit (hr : r.Sound label) (hs : r.stage = .took)
    (htaken : r.inbox.taken = some none) :
    Moved label r { r with stage := .finishing false } .quit := by
  have hlost : r.lost = [] := hr.lost_eq_nil (by rw [hs]; nofun) (by rw [hs]; nofun)
  have hleaving : r.leaving = [] := by simp only [leaving, hs]
  have hsound : Sound label { r with stage := .finishing false } := {
    settled_eq := hr.settled_leaving hleaving htaken rfl rfl (List.append_nil _).symm
    stage := by
      simp only [StageFits, htaken, Option.isSome_some]
    lost := Or.inl hlost
    rows := hr.rows }
  refine .silent hsound rfl rfl rfl rfl rfl ?_ le_rfl ?_
  · exact fun _ htask => mem_toCome_of_inHand htask rfl rfl
  · simp only [Runner.onWire, hs, starts]

/-- The answer to a call is read: the call stays on the wire until it is recorded. -/
theorem Sound.moved_answer (hr : r.Sound label) {now started_at : ℚ} {first second : Attempt}
    (hs : r.stage = .started started_at) :
    Moved label r { r with stage := .answered started_at now (send first second) }
      (.answer now first second) := by
  have hlost : r.lost = [] := hr.lost_eq_nil (by rw [hs]; nofun) (by rw [hs]; nofun)
  have hleaving : r.leaving = [] := by simp only [leaving, hs]
  have hstage := hr.stage
  simp only [StageFits, hs] at hstage
  have hsound : Sound label { r with stage := .answered started_at now (send first second) } := {
    settled_eq := by
      simp only [leaving, List.append_nil]
      exact hr.settled_eq_finished hleaving
    stage := ⟨hstage, first, second, rfl⟩
    lost := Or.inl hlost
    rows := hr.rows }
  refine .silent hsound rfl rfl rfl rfl rfl ?_ le_rfl ?_
  · simp only [Runner.toCome, inHand, hs]
    exact fun _ htask => htask
  · simp only [Runner.onWire, hs, starts]

/-- A call raises: its task is lost, and the thread ends with it. -/
theorem Sound.moved_raises (hr : r.Sound label) {started_at : ℚ} {task : Task}
    (hs : r.stage = .started started_at) (htaken : r.inbox.taken = some (some task)) :
    Moved label r { r with stage := .finishing false, lost := r.lost ++ [task] } .raises := by
  have hlost : r.lost = [] := hr.lost_eq_nil (by rw [hs]; nofun) (by rw [hs]; nofun)
  have hleaving : r.leaving = [] := by simp only [leaving, hs]
  have hdropped : r.dropped .raises = some task := by
    simp only [dropped, htaken, Option.join_some]
  exact {
    sound := {
      settled_eq := hr.settled_leaving hleaving htaken rfl rfl (List.append_assoc ..).symm
      stage := by
        simp only [StageFits, htaken, Option.isSome_some]
      lost := by
        right
        rw [hlost]
        exact ⟨rfl, Or.inl rfl⟩
      rows := hr.rows }
    recorded := (List.append_nil _).symm
    lost := by
      rw [hdropped]
      rfl
    rows := fun row hrow => absurd hrow (Option.not_mem_none row)
    tasks := rfl
    toCome := fun _ htask => mem_toCome_of_inHand htask rfl rfl
    pending := le_rfl
    onWire := by
      rw [hdropped]
      simp only [Runner.onWire, hs, reported, starts, Option.toList_none, List.length_nil,
        Option.toList_some, List.length_singleton] }

/-- A call is recorded: its row is that of the task in hand. -/
theorem Sound.moved_record (hr : r.Sound label) {written : Bool} {row : CallRow}
    (hrow : r.row label = some row) :
    Moved label r { r with stage := .finishing written, recorded := r.recorded ++ [row] }
      (.record written) := by
  obtain ⟨started_at, completed_at, answer, hs, htaken, huser, hclassified⟩ := row_eq_some hr hrow
  have hlost : r.lost = [] := hr.lost_eq_nil (by rw [hs]; nofun) (by rw [hs]; nofun)
  have hleaving : r.leaving = [] := by simp only [leaving, hs]
  have hreported : r.reported label (.record written) = some row := hrow
  exact {
    sound := {
      settled_eq := by
        refine hr.settled_leaving hleaving htaken rfl rfl ?_
        simp only [settled, hlost, List.append_nil, List.map_append]
        rfl
      stage := by
        simp only [StageFits, htaken, Option.isSome_some]
      lost := Or.inl hlost
      rows := by
        intro row' hrow'
        rcases List.mem_append.1 hrow' with hold | hnew
        · exact hr.rows row' hold
        · rw [List.mem_singleton.1 hnew]
          exact ⟨huser, hclassified⟩ }
    recorded := by
      rw [hreported]
      rfl
    lost := (List.append_nil _).symm
    rows := by
      rw [hreported]
      rintro row' ⟨⟩
      refine ⟨?_, hclassified⟩
      simp only [Runner.toCome, inHand, hs, htaken, Option.toList_some, List.filterMap_append]
      exact List.mem_append_left _ (List.mem_singleton_self _)
    tasks := rfl
    toCome := fun _ htask => mem_toCome_of_inHand htask rfl rfl
    pending := le_rfl
    onWire := by
      rw [hreported]
      simp only [Runner.onWire, hs, dropped, starts, Option.toList_none, List.length_nil,
        Option.toList_some, List.length_singleton] }

/-- An item is done with. -/
theorem Sound.moved_done (hr : r.Sound label) {inbox : TaskQueue (Option Task)} {goes_on : Bool}
    (hs : r.stage = .finishing goes_on) (hdone : r.inbox.task_done = some inbox) :
    Moved label r { r with inbox, stage := if goes_on then .waiting else .ended } .done := by
  obtain ⟨x, htaken, htaken', hitems, hputs, hfinished, hcount⟩ :=
    TaskQueue.task_done_eq_some hdone
  have hsettled := hr.settled_eq
  simp only [settled, leaving, hs, htaken] at hsettled
  have hsound : Sound label { r with inbox, stage := if goes_on then .waiting else .ended } := {
    settled_eq := by
      have hleaving :
          ({ r with inbox, stage := if goes_on then .waiting else .ended } : Runner).leaving =
            [] := by
        cases goes_on <;> rfl
      rw [hleaving, List.append_nil, hfinished]
      exact hsettled
    stage := by
      cases goes_on
      · exact htaken'
      · exact htaken'
    lost := by
      -- The thread that has lost a task goes to its end.
      rcases hr.lost with hlost | ⟨hlost, hend⟩
      · exact Or.inl hlost
      · rw [hs] at hend
        rcases hend with hend | hend
        · cases hend
          exact Or.inr ⟨hlost, Or.inr rfl⟩
        · cases hend
    rows := hr.rows }
  refine .silent hsound rfl rfl rfl rfl ?_ (fun _ htask => mem_toCome_of_inHand htask hitems ?_)
    ?_ ?_
  · simp only [Runner.tasks, hputs]
  · cases goes_on <;> simp [inHand, htaken']
  · unfold pending
    rw [hcount]
    exact Nat.le_succ _
  · cases goes_on <;> simp only [Runner.onWire, hs, starts] <;> rfl

/-- What a step makes of the account. -/
theorem Sound.moved (hr : r.Sound label) (h : r.step label act = some r') :
    Moved label r r' act := by
  cases steps_of_step h with
  | get hstage hget => exact hr.moved_get hstage hget
  | start hstage htaken => exact hr.moved_start hstage htaken
  | quit hstage htaken => exact hr.moved_quit hstage htaken
  | answer hstage => exact hr.moved_answer hstage
  | raises hstage htaken => exact hr.moved_raises hstage htaken
  | record hrow => exact hr.moved_record hrow
  | done hstage hdone => exact hr.moved_done hstage hdone

/-- A call on the wire is that of a task in hand. -/
theorem Sound.onWire_le (h : r.Sound label) : r.onWire ≤ r.toCome.length := by
  have hstage := h.stage
  cases hs : r.stage with
  | started started_at =>
    simp only [StageFits, hs] at hstage
    obtain ⟨task, htaken⟩ := hstage
    simp [onWire, toCome, inHand, hs, htaken]
  | answered started_at completed_at answer =>
    simp only [StageFits, hs] at hstage
    obtain ⟨⟨task, htaken⟩, _⟩ := hstage
    simp [onWire, toCome, inHand, hs, htaken]
  | _ =>
    simp only [onWire, hs]
    exact Nat.zero_le _

/-- No more calls than tasks. -/
theorem Sound.counts_le (h : r.Sound label) :
    r.recorded.length + r.lost.length + r.onWire ≤ r.tasks.length := by
  have hwire := h.onWire_le
  rw [h.tasks_eq, List.length_append, settled, List.length_append, List.length_map]
  omega

end Runner

end GenropyAsgi.Benchmarks.LoadEngine
