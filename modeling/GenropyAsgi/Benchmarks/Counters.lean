import Mathlib.Algebra.Order.Group.Multiset
import Mathlib.Data.Multiset.Sort
import GenropyAsgi.Benchmarks.Runners

/-!
# The counters of the load engine

`Steps` is what each act makes of the engine. Whatever the order in which the threads come in, the
counters and the intervals that the sampler was answered account for the tasks of the users
(`Accounts`).
-/

namespace GenropyAsgi.Benchmarks.LoadEngine

open Library

/-! ## The steps of the engine -/

section

variable {e e' : Engine} {label : String} {r r' : Runner} {act : RunnerAct}

/-- What the acts make of an engine. -/
inductive Steps (e : Engine) : Act → Engine → Prop where
  /-- The phase is not in the trace. -/
  | absent {phase : String} {now : ℚ} : Steps e (.playWindow phase now) e
  /-- A stop had been asked for. -/
  | refused {phase : String} {now rate : ℚ} (hdriver : e.driver = .idle) :
      Steps e (.playWindow phase now)
        { e with
          state := { e.state with phase := phase, level_rate := rate }
          driver := .raised .stopRequested }
  /-- A phase begins. -/
  | begins {phase : String} {now rate : ℚ} {rows : List Row} (hdriver : e.driver = .idle) :
      Steps e (.playWindow phase now)
        { e with
          state := { e.state with phase := phase, level_rate := rate }
          driver := .offering ⟨phase, rows, now, 0, 0⟩ rows }
  /-- No row is left. -/
  | finished {w : Window} (hdriver : e.driver = .offering w []) :
      Steps e .loop { e with driver := .draining w none }
  /-- The loop breaks off. -/
  | cut {w : Window} {rest : List Row} (hdriver : e.driver = .offering w rest)
      (hstopped : e.stopped = true) : Steps e .loop { e with driver := .draining w none }
  /-- The next row is waited for. -/
  | paces {w : Window} {row : Row} {rest : List Row}
      (hdriver : e.driver = .offering w (row :: rest)) :
      Steps e .loop { e with driver := .pacing w row rest }
  /-- The wait is cut short. -/
  | interrupted {w : Window} {row : Row} {rest : List Row} (hdriver : e.driver = .pacing w row rest)
      (hstopped : e.stopped = true) : Steps e .interrupted { e with driver := .draining w none }
  /-- A row is counted. -/
  | counts {w : Window} {row : Row} {rest : List Row} (hdriver : e.driver = .pacing w row rest) :
      Steps e .due { e with state := e.state.countOffered, driver := .putting w row rest }
  /-- A row is withheld. -/
  | withholds {w : Window} {row : Row} {rest : List Row} (hdriver : e.driver = .pacing w row rest) :
      Steps e .due { e with driver := .offering { w with withheld := w.withheld + 1 } rest }
  /-- The user of a row has no runner. -/
  | missing {w : Window} {row : Row} {rest : List Row} (hdriver : e.driver = .putting w row rest) :
      Steps e .put { e with driver := .raised .keyError }
  /-- A row is put. -/
  | puts {w : Window} {row : Row} {rest : List Row} {r : Runner}
      (hdriver : e.driver = .putting w row rest) (hget : e.runners.get row.user = some r) :
      Steps e .put { e with
        runners := e.runners.set row.user
          { r with inbox := r.inbox.put (some ⟨w.started + row.t_rel, w.phase⟩) }
        driver := .offering { w with offered := w.offered + 1 } rest }
  /-- The runners changed while they were summed. -/
  | changed {w : Window} {sum : Option PendingSum} (hdriver : e.driver = .draining w sum) :
      Steps e .sum { e with driver := .raised .runtimeError }
  /-- The sum goes on. -/
  | more {w : Window} {sum : Option PendingSum} {sum' : PendingSum}
      (hdriver : e.driver = .draining w sum) (hsum : sumNext e.runners sum = .more sum') :
      Steps e .sum { e with driver := .draining w (some sum') }
  /-- Nothing is pending. -/
  | emptied {w : Window} {sum : Option PendingSum} (hdriver : e.driver = .draining w sum)
      (hsum : sumNext e.runners sum = .made 0) : Steps e .sum { e with driver := .closing w }
  /-- Something is pending. -/
  | pending {w : Window} {sum : Option PendingSum} (hdriver : e.driver = .draining w sum) :
      Steps e .sum { e with driver := .waiting w }
  /-- The runners changed while they were summed once more. -/
  | changed' {w : Window} {calls : List CallRow} {sum : Option PendingSum}
      (hdriver : e.driver = .reporting w calls sum) :
      Steps e .sum { e with driver := .raised .runtimeError }
  /-- The second sum goes on. -/
  | more' {w : Window} {calls : List CallRow} {sum : Option PendingSum} {sum' : PendingSum}
      (hdriver : e.driver = .reporting w calls sum) (hsum : sumNext e.runners sum = .more sum') :
      Steps e .sum { e with driver := .reporting w calls (some sum') }
  /-- The window is closed. -/
  | closes {w : Window} {calls : List CallRow} {sum : Option PendingSum} {total : ℕ}
      (hdriver : e.driver = .reporting w calls sum) (hsum : sumNext e.runners sum = .made total) :
      Steps e .sum { e with windows := e.windows ++ [closeWindow w calls total], driver := .idle }
  /-- The drain goes on. -/
  | again {w : Window} (hdriver : e.driver = .waiting w) :
      Steps e .again { e with driver := .draining w none }
  /-- The drain has failed. -/
  | deadline {w : Window} (hdriver : e.driver = .waiting w) :
      Steps e .deadline { e with driver := .raised .invalidRun }
  /-- The calls of the window are taken. -/
  | takeCalls {w : Window} (hdriver : e.driver = .closing w) :
      Steps e .takeCalls { e with
        window_calls := e.window_calls.filter fun c => c.phase ≠ w.phase
        driver := .reporting w (e.window_calls.filter fun c => c.phase = w.phase) none }
  /-- The phases are over. -/
  | stopRunners {rest : List String} (hdriver : e.driver = .idle) :
      Steps e .stopRunners { e with driver := .stopping rest none }
  /-- A phase has raised. -/
  | stopRunners' {rest : List String} {error : DriverError} (hdriver : e.driver = .raised error) :
      Steps e .stopRunners { e with driver := .stopping rest error }
  /-- A runner is told to end. -/
  | tell {rest : List String} {label : String} {error : Option DriverError} {r : Runner}
      (hdriver : e.driver = .stopping (label :: rest) error) (hget : e.runners.get label = some r) :
      Steps e .tell { e with
        runners := e.runners.set label { r with inbox := r.inbox.put none }
        driver := .stopping rest error }
  /-- A user's thread acts. -/
  | runner {label : String} {act : RunnerAct} {r r' : Runner}
      (hget : e.runners.get label = some r) (hstep : r.step label act = some r') :
      Steps e (.runner label act)
        { e.account label r act with runners := e.runners.set label r' }
  /-- A user's thread is started. -/
  | buildUser {label : String} (hget : e.runners.get label = none) :
      Steps e (.buildUser label) { e with runners := e.runners.set label .new }
  /-- The users admitted change. -/
  | calling {a : Act} (calling : Finset String) : Steps e a { e with calling := calling }
  /-- A stop is asked for. -/
  | askStop : Steps e .askStop { e with stopped := true }
  /-- The interval is taken. -/
  | takeInterval : Steps e .takeInterval { e with
      state := { e.state with lat := [], late := [] }
      intervals := e.intervals ++ [e.state.interval] }

/-- The acts are these. -/
theorem steps_of_step {a : Act} (h : step e a = some e') : Steps e a e' := by
  cases a with
  | playWindow phase now =>
    dsimp only [step] at h
    split at h
    · rename_i hdriver
      split at h
      · cases h
        exact .absent
      · split_ifs at h
        · cases h
          exact .refused hdriver
        · cases h
          exact .begins hdriver
    · cases h
  | loop =>
    dsimp only [step] at h
    split at h
    · rename_i hdriver
      cases h
      exact .finished hdriver
    · rename_i hdriver
      split_ifs at h with hstopped
      · cases h
        exact .cut hdriver hstopped
      · cases h
        exact .paces hdriver
    · cases h
  | interrupted =>
    dsimp only [step] at h
    split at h
    · rename_i hdriver
      split_ifs at h with hstopped
      cases h
      exact .interrupted hdriver hstopped
    · cases h
  | due =>
    dsimp only [step] at h
    split at h
    · rename_i hdriver
      split_ifs at h
      · cases h
        exact .counts hdriver
      · cases h
        exact .withholds hdriver
    · cases h
  | put =>
    dsimp only [step] at h
    split at h
    · rename_i hdriver
      split at h
      · cases h
        exact .missing hdriver
      · rename_i hget
        cases h
        exact .puts hdriver hget
    · cases h
  | sum =>
    dsimp only [step] at h
    split at h
    · rename_i hdriver
      split at h
      · cases h
        exact .changed hdriver
      · rename_i hsum
        cases h
        exact .more hdriver hsum
      · rename_i hsum
        cases h
        exact .emptied hdriver hsum
      · cases h
        exact .pending hdriver
    · rename_i hdriver
      split at h
      · cases h
        exact .changed' hdriver
      · rename_i hsum
        cases h
        exact .more' hdriver hsum
      · rename_i hsum
        cases h
        exact .closes hdriver hsum
    · cases h
  | again =>
    dsimp only [step] at h
    split at h
    · rename_i hdriver
      cases h
      exact .again hdriver
    · cases h
  | deadline =>
    dsimp only [step] at h
    split at h
    · rename_i hdriver
      cases h
      exact .deadline hdriver
    · cases h
  | takeCalls =>
    dsimp only [step] at h
    split at h
    · rename_i hdriver
      cases h
      exact .takeCalls hdriver
    · cases h
  | stopRunners =>
    dsimp only [step] at h
    split at h
    · rename_i hdriver
      cases h
      exact .stopRunners hdriver
    · rename_i hdriver
      cases h
      exact .stopRunners' hdriver
    · cases h
  | tell =>
    dsimp only [step] at h
    split at h
    · rename_i hdriver
      split at h
      · cases h
      · rename_i hget
        cases h
        exact .tell hdriver hget
    · cases h
  | runner label act =>
    dsimp only [step] at h
    split at h
    · cases h
    · rename_i hget
      obtain ⟨r', hstep, rfl⟩ := Option.map_eq_some_iff.1 h
      exact .runner hget hstep
  | buildUser label =>
    dsimp only [step] at h
    split at h
    · rename_i hget
      cases h
      exact .buildUser hget
    · cases h
  | admitUser label =>
    cases h
    exact .calling _
  | pauseUsers labels =>
    dsimp only [step] at h
    split at h
    · cases h
      exact .calling _
    · cases h
  | askStop =>
    cases h
    exact .askStop
  | takeInterval =>
    cases h
    exact .takeInterval

/-- The counter of a kind of error. -/
def EngineState.errors (state : EngineState) : ErrorKind → ℕ
  | .transport => state.errors_transport
  | .app => state.errors_app
  | .http => state.errors_http

/-- What `record_call` makes of the counters. -/
theorem recordCall_eq (state : EngineState) (row : CallRow) :
    (state.recordCall row).offered = state.offered ∧
      (state.recordCall row).started = state.started ∧
      (state.recordCall row).completed = state.completed + 1 ∧
      (state.recordCall row).lat = state.lat ++ [row.latency_ms] ∧
      (state.recordCall row).late = state.late ++ [row.lateness_s] ∧
      ∀ kind, (state.recordCall row).errors kind =
        state.errors kind + if row.error = some kind then 1 else 0 := by
  unfold EngineState.recordCall
  cases row.error with
  | none => exact ⟨rfl, rfl, rfl, rfl, rfl, fun kind => rfl⟩
  | some error =>
    cases error with
    | transport => exact ⟨rfl, rfl, rfl, rfl, rfl, fun kind => by cases kind <;> rfl⟩
    | app => exact ⟨rfl, rfl, rfl, rfl, rfl, fun kind => by cases kind <;> rfl⟩
    | http => exact ⟨rfl, rfl, rfl, rfl, rfl, fun kind => by cases kind <;> rfl⟩

/-- What the engine keeps of an act of a user's thread. -/
theorem account_eq (e : Engine) (label : String) (r : Runner) (act : RunnerAct) :
    e.account label r act =
      { e with
        state := match r.reported label act with
          | some row => e.state.recordCall row
          | none => { e.state with started := e.state.started + Runner.starts act }
        window_calls := e.window_calls ++ (r.reported label act).toList } := by
  cases act with
  | record written =>
    unfold Engine.account Runner.reported
    dsimp only
    cases r.row label with
    | some row => rfl
    | none => simp [Runner.starts]
  | start now =>
    unfold Engine.account Runner.reported
    dsimp only
    rw [Option.toList_none, List.append_nil]
    rfl
  | _ =>
    unfold Engine.account Runner.reported
    dsimp only
    rw [Option.toList_none, List.append_nil]
    rfl

/-- What the counters make of an act of a user's thread: the call that it starts, and the row that
it records. -/
theorem account_state (e : Engine) (label : String) (r : Runner) (act : RunnerAct) :
    (e.account label r act).state.offered = e.state.offered ∧
      (e.account label r act).state.started = e.state.started + Runner.starts act ∧
      (e.account label r act).state.completed =
        e.state.completed + (r.reported label act).toList.length ∧
      (e.account label r act).state.lat =
        e.state.lat ++ (r.reported label act).toList.map CallRow.latency_ms ∧
      (e.account label r act).state.late =
        e.state.late ++ (r.reported label act).toList.map CallRow.lateness_s ∧
      ∀ kind, (e.account label r act).state.errors kind = e.state.errors kind +
        (r.reported label act).toList.countP fun row => row.error = some kind := by
  rw [account_eq]
  cases hreported : r.reported label act with
  | none =>
    exact ⟨rfl, rfl, rfl, (List.append_nil _).symm, (List.append_nil _).symm, fun kind => by
      cases kind <;> rfl⟩
  | some row =>
    -- An act that records a row starts no call.
    have hstarts : Runner.starts act = 0 := by
      cases act with
      | start now => cases hreported
      | _ => rfl
    obtain ⟨hoffered, hstarted, hcompleted, hlat, hlate, herrors⟩ := recordCall_eq e.state row
    refine ⟨hoffered, ?_, hcompleted, hlat, hlate, fun kind => ?_⟩
    · rw [hstarts]
      exact hstarted
    · dsimp only
      rw [herrors, Option.toList_some, List.countP_singleton]
      simp only [decide_eq_true_eq]

/-- An act of a user's thread leaves the driver and the intervals. -/
theorem account_keeps (e : Engine) (label : String) (r : Runner) (act : RunnerAct) :
    (e.account label r act).driver = e.driver ∧
      (e.account label r act).intervals = e.intervals := by
  rw [account_eq]
  exact ⟨rfl, rfl⟩

end

/-! ## The counters -/

/-- A row that was counted and could not be put. -/
def DriverError.counted : DriverError → ℕ
  | .keyError => 1
  | _ => 0

/-- A row that is counted and not put. -/
def Driver.counted : Driver → ℕ
  | .putting .. => 1
  | .raised error => error.counted
  | .stopping _ error => (error.map DriverError.counted).getD 0
  | _ => 0

/-- What the counters, and what the sampler was answered, account for. -/
structure Accounts (e : Engine) : Prop where
  /-- The threads keep their accounts. -/
  sound : ∀ label r, e.runners.get label = some r → r.Sound label
  /-- A row is offered once it is counted. -/
  offered : e.state.offered = e.runners.tally (fun r => r.tasks.length) + e.driver.counted
  /-- A call that was started is recorded, lost, or on the wire. -/
  started : e.state.started =
    e.runners.tally fun r => r.recorded.length + r.lost.length + r.onWire
  /-- The finished calls are those recorded. -/
  completed : e.state.completed = e.runners.tally fun r => r.recorded.length
  /-- The errors of each kind are those of the calls recorded. -/
  errors : ∀ kind, e.state.errors kind =
    e.runners.tally fun r => r.recorded.countP fun row => row.error = some kind
  /-- Every latency is in one interval, or in the one to come. -/
  lat : ((e.intervals.flatMap Interval.lat ++ e.state.lat : List ℚ) : Multiset ℚ) =
    e.runners.tally fun r => (r.recorded.map CallRow.latency_ms : Multiset ℚ)
  /-- So is every lateness. -/
  late : ((e.intervals.flatMap Interval.late ++ e.state.late : List ℚ) : Multiset ℚ) =
    e.runners.tally fun r => (r.recorded.map CallRow.lateness_s : Multiset ℚ)

/-- A figure of the threads that leaves their inboxes out has one tally, whatever is put. -/
theorem tally_put {M : Type} [AddCommMonoid M] {f : Runner → M}
    {runners : OrderedDict String Runner} {label : String} {r : Runner}
    (hget : runners.get label = some r) (x : Option Task)
    (hf : f { r with inbox := r.inbox.put x } = f r) :
    (runners.set label { r with inbox := r.inbox.put x }).tally f = runners.tally f :=
  OrderedDict.tally_set_same f hget hf

/-- A figure that a new thread begins with zero has one tally, whoever is built. -/
theorem tally_build {M : Type} [AddCommMonoid M] {f : Runner → M}
    {runners : OrderedDict String Runner} {label : String} (hget : runners.get label = none)
    (hf : f .new = 0) : (runners.set label .new).tally f = runners.tally f := by
  rw [OrderedDict.tally_set_new f hget, hf, add_zero]

namespace Accounts

variable {e e' : Engine} {label : String} {r r' : Runner} {act : RunnerAct}

/-- A new engine. -/
theorem new (trace : List Row) : Accounts (.new trace) where
  sound := nofun
  offered := rfl
  started := rfl
  completed := rfl
  errors kind := by cases kind <;> rfl
  lat := rfl
  late := rfl

/-- The threads keep their accounts when one of them does. -/
theorem sound_set (h : ∀ label r, e.runners.get label = some r → r.Sound label)
    (hr' : r'.Sound label) (l : String) (s : Runner)
    (hs : (e.runners.set label r').get l = some s) :
    s.Sound l := by
  rw [OrderedDict.get_set] at hs
  split_ifs at hs with heq
  · cases hs
    rw [heq]
    exact hr'
  · exact h l s hs

/-- An act of a user's thread. -/
theorem runner (h : Accounts e) (hget : e.runners.get label = some r)
    (hstep : r.step label act = some r') :
    Accounts { e.account label r act with runners := e.runners.set label r' } := by
  have hmoved := (h.sound label r hget).moved hstep
  have hrecorded := hmoved.recorded
  obtain ⟨hoffered, hstarted, hcompleted, hlat, hlate, herrors⟩ := account_state e label r act
  obtain ⟨hdriver, hintervals⟩ := account_keeps e label r act
  exact {
    sound := sound_set h.sound hmoved.sound
    offered := by
      dsimp only
      rw [hoffered, hdriver, h.offered,
        OrderedDict.tally_set_same _ hget (congrArg List.length hmoved.tasks)]
    started := by
      have hwire := hmoved.onWire
      have hfigure : r'.recorded.length + r'.lost.length + r'.onWire =
          r.recorded.length + r.lost.length + r.onWire + Runner.starts act := by
        rw [hrecorded, hmoved.lost, List.length_append, List.length_append]
        omega
      dsimp only
      rw [hstarted, h.started, OrderedDict.tally_set_add _ hget hfigure]
    completed := by
      have hfigure : r'.recorded.length =
          r.recorded.length + (r.reported label act).toList.length := by
        rw [hrecorded, List.length_append]
      dsimp only
      rw [hcompleted, h.completed, OrderedDict.tally_set_add _ hget hfigure]
    errors := by
      intro kind
      have hfigure : (r'.recorded.countP fun row => row.error = some kind) =
          (r.recorded.countP fun row => row.error = some kind) +
            (r.reported label act).toList.countP fun row => row.error = some kind := by
        rw [hrecorded, List.countP_append]
      dsimp only
      rw [herrors, h.errors, OrderedDict.tally_set_add _ hget hfigure]
    lat := by
      have hfigure : (r'.recorded.map CallRow.latency_ms : Multiset ℚ) =
          r.recorded.map CallRow.latency_ms +
            (r.reported label act).toList.map CallRow.latency_ms := by
        rw [hrecorded, List.map_append, Multiset.coe_add]
      dsimp only
      rw [hlat, hintervals, ← List.append_assoc, ← Multiset.coe_add, h.lat,
        OrderedDict.tally_set_add _ hget hfigure]
    late := by
      have hfigure : (r'.recorded.map CallRow.lateness_s : Multiset ℚ) =
          r.recorded.map CallRow.lateness_s +
            (r.reported label act).toList.map CallRow.lateness_s := by
        rw [hrecorded, List.map_append, Multiset.coe_add]
      dsimp only
      rw [hlate, hintervals, ← List.append_assoc, ← Multiset.coe_add, h.late,
        OrderedDict.tally_set_add _ hget hfigure] }

/-- An item put in the inbox of a user. -/
theorem put (h : Accounts e) (hget : e.runners.get label = some r) (x : Option Task)
    {driver : Driver} (hdriver : driver.counted + x.toList.length = e.driver.counted) :
    Accounts { e with
      runners := e.runners.set label { r with inbox := r.inbox.put x }, driver := driver } where
  sound := sound_set h.sound ((h.sound label r hget).put x)
  offered := by
    have hfigure : ({ r with inbox := r.inbox.put x } : Runner).tasks.length =
        r.tasks.length + x.toList.length := by
      rw [Runner.tasks_put, List.length_append]
    dsimp only
    rw [h.offered, OrderedDict.tally_set_add _ hget hfigure]
    omega
  started := h.started.trans (tally_put hget x rfl).symm
  completed := h.completed.trans (tally_put hget x rfl).symm
  errors := fun kind => (h.errors kind).trans (tally_put hget x rfl).symm
  lat := h.lat.trans (tally_put hget x rfl).symm
  late := h.late.trans (tally_put hget x rfl).symm

/-- A new thread. -/
theorem build (h : Accounts e) (hget : e.runners.get label = none) :
    Accounts { e with runners := e.runners.set label .new } where
  sound := sound_set h.sound (Runner.sound_new label)
  offered := by
    dsimp only
    rw [tally_build hget rfl]
    exact h.offered
  started := h.started.trans (tally_build hget rfl).symm
  completed := h.completed.trans (tally_build hget rfl).symm
  errors := fun kind => (h.errors kind).trans (tally_build hget rfl).symm
  lat := h.lat.trans (tally_build hget rfl).symm
  late := h.late.trans (tally_build hget rfl).symm

/-- An act of the driver that counts and puts nothing. -/
theorem moves (h : Accounts e) {driver : Driver} (hdriver : driver.counted = e.driver.counted) :
    Accounts { e with driver := driver } := by
  have hoffered := h.offered
  rw [← hdriver] at hoffered
  exact { h with offered := hoffered }

/-- What the sampler was answered, and what it is to be answered, stay together. -/
theorem takeInterval (h : Accounts e) :
    Accounts { e with
      state := { e.state with lat := [], late := [] }
      intervals := e.intervals ++ [e.state.interval] } := by
  have hlat : (e.state.interval.lat : Multiset ℚ) = e.state.lat :=
    Multiset.coe_eq_coe.2 (List.mergeSort_perm _ _)
  have hlate : (e.state.interval.late : Multiset ℚ) = e.state.late :=
    Multiset.coe_eq_coe.2 (List.mergeSort_perm _ _)
  exact {
    sound := h.sound
    offered := h.offered
    started := h.started
    completed := h.completed
    errors := fun kind => (h.errors kind).symm ▸ by cases kind <;> rfl
    lat := by
      rw [← h.lat, List.append_nil, List.flatMap_append, List.flatMap_singleton,
        ← Multiset.coe_add, hlat, Multiset.coe_add]
    late := by
      rw [← h.late, List.append_nil, List.flatMap_append, List.flatMap_singleton,
        ← Multiset.coe_add, hlate, Multiset.coe_add] }

/-- Every step keeps the accounts. -/
theorem step (h : Accounts e) {a : Act} (hstep : LoadEngine.step e a = some e') : Accounts e' := by
  cases steps_of_step hstep with
  | absent => exact h
  | refused hdriver => exact { h.moves (congrArg Driver.counted hdriver).symm with }
  | begins hdriver => exact { h.moves (congrArg Driver.counted hdriver).symm with }
  | finished hdriver => exact h.moves (congrArg Driver.counted hdriver).symm
  | cut hdriver hstopped => exact h.moves (congrArg Driver.counted hdriver).symm
  | paces hdriver => exact h.moves (congrArg Driver.counted hdriver).symm
  | interrupted hdriver hstopped => exact h.moves (congrArg Driver.counted hdriver).symm
  | counts hdriver =>
    have hoffered := h.offered
    rw [hdriver] at hoffered
    exact { h with
      offered := congrArg Nat.succ hoffered
      errors := fun kind => (h.errors kind).symm ▸ by cases kind <;> rfl }
  | withholds hdriver => exact h.moves (congrArg Driver.counted hdriver).symm
  | missing hdriver => exact h.moves (congrArg Driver.counted hdriver).symm
  | puts hdriver hget => exact h.put hget _ (congrArg Driver.counted hdriver).symm
  | changed hdriver => exact h.moves (congrArg Driver.counted hdriver).symm
  | more hdriver hsum => exact h.moves (congrArg Driver.counted hdriver).symm
  | emptied hdriver hsum => exact h.moves (congrArg Driver.counted hdriver).symm
  | pending hdriver => exact h.moves (congrArg Driver.counted hdriver).symm
  | changed' hdriver => exact h.moves (congrArg Driver.counted hdriver).symm
  | more' hdriver hsum => exact h.moves (congrArg Driver.counted hdriver).symm
  | closes hdriver hsum => exact { h.moves (congrArg Driver.counted hdriver).symm with }
  | again hdriver => exact h.moves (congrArg Driver.counted hdriver).symm
  | deadline hdriver => exact h.moves (congrArg Driver.counted hdriver).symm
  | takeCalls hdriver => exact { h.moves (congrArg Driver.counted hdriver).symm with }
  | stopRunners hdriver => exact h.moves (congrArg Driver.counted hdriver).symm
  | stopRunners' hdriver => exact h.moves (congrArg Driver.counted hdriver).symm
  | tell hdriver hget => exact h.put hget none (congrArg Driver.counted hdriver).symm
  | runner hget hact => exact h.runner hget hact
  | buildUser hget => exact h.build hget
  | calling calling => exact { h with }
  | askStop => exact { h with }
  | takeInterval => exact h.takeInterval

end Accounts

/-- The counters are in order. -/
theorem Accounts.ordered {e : Engine} (h : Accounts e) :
    e.state.completed ≤ e.state.started ∧ e.state.started ≤ e.state.offered := by
  have hcompleted : e.runners.tally (fun r => r.recorded.length) ≤
      e.runners.tally fun r => r.recorded.length + r.lost.length + r.onWire :=
    OrderedDict.tally_le fun _ _ => by omega
  have hstarted : e.runners.tally (fun r => r.recorded.length + r.lost.length + r.onWire) ≤
      e.runners.tally fun r => r.tasks.length :=
    OrderedDict.tally_le fun item hitem =>
      (h.sound item.1 item.2 (OrderedDict.get_of_mem hitem)).counts_le
  have hoffered := h.offered
  rw [h.completed, h.started]
  omega

end GenropyAsgi.Benchmarks.LoadEngine
