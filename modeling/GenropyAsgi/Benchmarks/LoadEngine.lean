import Mathlib.Algebra.Field.Rat
import Mathlib.Data.Finset.Filter
import Mathlib.Data.Finset.Insert
import Mathlib.Data.List.Sort
import Mathlib.Algebra.Order.Ring.Unbundled.Rat
import GenropyAsgi.Library.Run
import GenropyAsgi.Library.TaskQueue

/-!
# The load engine

`LoadEngine` and `UserRunner` of `load_engine.py`, with the loop of `CycleEngine` in
`cycle_probe.py`, over exact rationals. The driver offers the rows of a phase at their instants and
puts each in the inbox of its user; a thread for each user takes them out, sends them and records
the calls; the pacers admit users, a sampler takes the interval, and anybody may ask for a stop. An
action is what one thread does between two points at which another one may come in: `count_offered`
and the `put` that follows it are two, and so is each inbox that the sum of the pending tasks reads.

What the stack answers, when, and whether a call raises, are part of the actions. The body of a
request, the worker of a call, the CSV, the percentiles of a window and what is printed are not
modelled, nor is rounding. `TaskQueue.puts`, `TaskQueue.finished`, `Runner.recorded`, `Runner.lost`
and `Engine.intervals` are history: the code does not keep them.
-/

namespace GenropyAsgi.Benchmarks.LoadEngine

open Library

/-! ## The calls -/

/-- A row of the trace. -/
structure Row where
  /-- The phase. -/
  phase : String
  /-- The label of the user. -/
  user : String
  /-- The instant, from the start of the phase. -/
  t_rel : ℚ
  /-- The rate declared for the phase. -/
  rate : ℚ
deriving DecidableEq

/-- What the driver puts in an inbox. -/
structure Task where
  /-- The instant at which it is due. -/
  scheduled_at : ℚ
  /-- The phase. -/
  phase : String
deriving DecidableEq

/-- One attempt of `send`. -/
inductive Attempt where
  /-- It raises, with the `repr` of the exception. -/
  | raises (failure : String)
  /-- The stack answers a status, and a payload that bears `APP_ERROR_MARKER` or does not. -/
  | answers (status : ℤ) (marked : Bool)

/-- What `send` returns. -/
structure Answer where
  /-- The status, `None` where there was no answer. -/
  status : Option ℤ
  /-- The error of the application. -/
  app_error : Option String
  /-- The error of the transport. -/
  transport_error : Option String
deriving DecidableEq

/-- `send`: one retry, and only where the first attempt raises. -/
def send (first second : Attempt) : Answer :=
  match first, second with
  | .answers status marked, _ => answered status marked
  | .raises _, .answers status marked => answered status marked
  | .raises _, .raises failure => ⟨none, none, some (String.ofList (failure.toList.take 120))⟩
where
  /-- The answer that was read. -/
  answered (status : ℤ) (marked : Bool) : Answer :=
    if status ≠ 200 then ⟨some status, none, none⟩
    else if marked then ⟨some status, some "application error", none⟩
    else ⟨some status, none, none⟩

/-- The row of a finished call. -/
structure CallRow where
  /-- The phase. -/
  phase : String
  /-- The label of the user. -/
  user : String
  /-- When it was due. -/
  scheduled_at : ℚ
  /-- When it was sent. -/
  started_at : ℚ
  /-- When its answer was read, or given up. -/
  completed_at : ℚ
  /-- How late it was sent. -/
  lateness_s : ℚ
  /-- How long it took. -/
  latency_ms : ℚ
  /-- The status; no status is written as the empty text. -/
  status : Option ℤ
  /-- The error of the application, empty for none. -/
  app_error : String
  /-- The error of the transport, empty for none. -/
  transport_error : String
deriving DecidableEq

/-- The row that `execute` records. -/
def callRow (label : String) (task : Task) (started_at completed_at : ℚ) (answer : Answer) :
    CallRow where
  phase := task.phase
  user := label
  scheduled_at := task.scheduled_at
  started_at := started_at
  completed_at := completed_at
  lateness_s := started_at - task.scheduled_at
  latency_ms := (completed_at - started_at) * 1000
  status := answer.status
  app_error := answer.app_error.getD ""
  transport_error := answer.transport_error.getD ""

/-! ## A user's thread -/

/-- Where the thread of a user is. -/
inductive Stage where
  /-- At `inbox.get()`. -/
  | waiting
  /-- An item is taken. -/
  | took
  /-- The request is counted and on its way. -/
  | started (started_at : ℚ)
  /-- Its answer is there. -/
  | answered (started_at completed_at : ℚ) (answer : Answer)
  /-- In the `finally`; the loop goes on, or the thread ends. -/
  | finishing (goes_on : Bool)
  /-- The thread has ended. -/
  | ended
deriving DecidableEq

/-- A user's thread. -/
structure Runner where
  /-- Its inbox; `None` tells it to end. -/
  inbox : TaskQueue (Option Task)
  /-- Where it is. -/
  stage : Stage
  /-- The rows that it has recorded. -/
  recorded : List CallRow
  /-- The tasks at which it raised before it recorded them. -/
  lost : List Task

/-- A new thread. -/
def Runner.new : Runner := ⟨.empty, .waiting, [], []⟩

/-- `pending`. -/
def Runner.pending (r : Runner) : ℕ := r.inbox.unfinished_tasks

/-- What the thread of a user does. -/
inductive RunnerAct where
  /-- `inbox.get()`. -/
  | get
  /-- `count_started`, with the instant read before it. -/
  | start (now : ℚ)
  /-- The item was `None`. -/
  | quit
  /-- `send`, with the instant read after it. -/
  | answer (now : ℚ) (first second : Attempt)
  /-- The body of the request raises. -/
  | raises
  /-- `record_call`; the CSV takes the row, or raises. -/
  | record (written : Bool)
  /-- `task_done`. -/
  | done

/-- The row of the call in hand, once it is answered. -/
def Runner.row (label : String) (r : Runner) : Option CallRow :=
  match r.stage, r.inbox.taken with
  | .answered started_at completed_at answer, some (some task) =>
    some (callRow label task started_at completed_at answer)
  | _, _ => none

/-- What the thread makes of itself. -/
def Runner.step (label : String) (r : Runner) : RunnerAct → Option Runner
  | .get =>
    match r.stage with
    | .waiting => r.inbox.get.map fun inbox => { r with inbox, stage := .took }
    | _ => none
  | .start now =>
    match r.stage, r.inbox.taken with
    | .took, some (some _) => some { r with stage := .started now }
    | _, _ => none
  | .quit =>
    match r.stage, r.inbox.taken with
    | .took, some none => some { r with stage := .finishing false }
    | _, _ => none
  | .answer now first second =>
    match r.stage with
    | .started started_at => some { r with stage := .answered started_at now (send first second) }
    | _ => none
  | .raises =>
    match r.stage, r.inbox.taken with
    | .started _, some (some task) =>
      some { r with stage := .finishing false, lost := r.lost ++ [task] }
    | _, _ => none
  | .record written =>
    (r.row label).map fun row =>
      { r with stage := .finishing written, recorded := r.recorded ++ [row] }
  | .done =>
    match r.stage with
    | .finishing goes_on => r.inbox.task_done.map fun inbox =>
      { r with inbox, stage := if goes_on then .waiting else .ended }
    | _ => none

/-! ## The accounts -/

/-- `state`. -/
structure EngineState where
  /-- The phase. -/
  phase : String
  /-- The rate of the phase. -/
  level_rate : ℚ
  /-- The rows offered. -/
  offered : ℕ
  /-- The requests handed to the socket. -/
  started : ℕ
  /-- The finished calls. -/
  completed : ℕ
  /-- Those with a status that is not 200. -/
  errors_http : ℕ
  /-- Those with an error of the application. -/
  errors_app : ℕ
  /-- Those with an error of the transport. -/
  errors_transport : ℕ
  /-- The latencies since the last interval. -/
  lat : List ℚ
  /-- How late the calls since the last interval were. -/
  late : List ℚ

/-- What `take_interval` answers. -/
structure Interval where
  /-- The latencies, sorted. -/
  lat : List ℚ
  /-- The latenesses, sorted. -/
  late : List ℚ
  /-- The phase. -/
  phase : String
  /-- The rate of the phase. -/
  level_rate : ℚ
  /-- The rows offered. -/
  offered : ℕ
  /-- The requests handed to the socket. -/
  started : ℕ
  /-- The finished calls. -/
  completed : ℕ
  /-- Those with a status that is not 200. -/
  errors_http : ℕ
  /-- Those with an error of the application. -/
  errors_app : ℕ
  /-- Those with an error of the transport. -/
  errors_transport : ℕ

/-- The three kinds of error, which are kept apart. -/
inductive ErrorKind where
  /-- An error of the transport. -/
  | transport
  /-- An error of the application. -/
  | app
  /-- A status that is not 200. -/
  | http
deriving DecidableEq

/-- The branches of `record_call`. -/
def CallRow.error (row : CallRow) : Option ErrorKind :=
  if row.transport_error ≠ "" then some .transport
  else if row.app_error ≠ "" then some .app
  else if row.status ≠ some 200 then some .http
  else none

/-- `count_offered`. -/
def EngineState.countOffered (state : EngineState) : EngineState :=
  { state with offered := state.offered + 1 }

/-- `count_started`. -/
def EngineState.countStarted (state : EngineState) : EngineState :=
  { state with started := state.started + 1 }

/-- The counters after a finished call. -/
def EngineState.recordCall (state : EngineState) (row : CallRow) : EngineState :=
  let state :=
    { state with
      completed := state.completed + 1
      lat := state.lat ++ [row.latency_ms]
      late := state.late ++ [row.lateness_s] }
  match row.error with
  | some .transport => { state with errors_transport := state.errors_transport + 1 }
  | some .app => { state with errors_app := state.errors_app + 1 }
  | some .http => { state with errors_http := state.errors_http + 1 }
  | none => state

/-- `take_interval`: what it answers. -/
def EngineState.interval (state : EngineState) : Interval where
  lat := state.lat.mergeSort (fun x y => decide (x ≤ y))
  late := state.late.mergeSort (fun x y => decide (x ≤ y))
  phase := state.phase
  level_rate := state.level_rate
  offered := state.offered
  started := state.started
  completed := state.completed
  errors_http := state.errors_http
  errors_app := state.errors_app
  errors_transport := state.errors_transport

/-! ## The driver -/

/-- The sum of the pending tasks, in the making: the inboxes are read one after another, each under
its own lock. -/
structure PendingSum where
  /-- How many runners there were at its beginning. -/
  size : ℕ
  /-- How many have been read. -/
  read : ℕ
  /-- Their pending tasks. -/
  total : ℕ

/-- What the next reading makes of the sum. -/
inductive SumStep where
  /-- The dictionary has changed its size: a `RuntimeError`. -/
  | changed
  /-- One more inbox is read. -/
  | more (sum : PendingSum)
  /-- The sum is made. -/
  | made (total : ℕ)

/-- The beginning of the sum, and each reading. -/
def sumNext (runners : OrderedDict String Runner) : Option PendingSum → SumStep
  | none => .more ⟨runners.items.length, 0, 0⟩
  | some sum =>
    if runners.items.length ≠ sum.size then .changed
    else
      match runners.items[sum.read]? with
      | some item => .more ⟨sum.size, sum.read + 1, sum.total + item.2.pending⟩
      | none => .made sum.total

/-- The variables of the loop over the rows of a phase. -/
structure Window where
  /-- The phase. -/
  phase : String
  /-- Its rows. -/
  rows : List Row
  /-- The instant at which it began. -/
  started : ℚ
  /-- The rows put in an inbox so far. -/
  offered : ℕ
  /-- The rows whose user was not admitted. -/
  withheld : ℕ

/-- What ends the driver's phases. -/
inductive DriverError where
  /-- A stop had been asked for before the phase. -/
  | stopRequested
  /-- A row's user has no runner. -/
  | keyError
  /-- The runners changed while their pending tasks were summed. -/
  | runtimeError
  /-- Requests were pending after the deadline of the drain. -/
  | invalidRun
deriving DecidableEq

/-- Where the driver is. -/
inductive Driver where
  /-- Between two phases. -/
  | idle
  /-- At the top of the loop, with the rows to come. -/
  | offering (w : Window) (rest : List Row)
  /-- Waiting for the instant of a row. -/
  | pacing (w : Window) (row : Row) (rest : List Row)
  /-- The row is counted, and is to be put. -/
  | putting (w : Window) (row : Row) (rest : List Row)
  /-- Summing the pending tasks. -/
  | draining (w : Window) (sum : Option PendingSum)
  /-- Some were pending. -/
  | waiting (w : Window)
  /-- The queues have emptied. -/
  | closing (w : Window)
  /-- The calls of the phase are taken, and the pending tasks summed once more. -/
  | reporting (w : Window) (calls : List CallRow) (sum : Option PendingSum)
  /-- A phase has raised. -/
  | raised (error : DriverError)
  /-- The runners are told to end, whatever the phases ended with. -/
  | stopping (rest : List String) (error : Option DriverError)

/-- The record of a closed window. -/
structure WindowRecord where
  /-- The phase. -/
  phase : String
  /-- The rows offered. -/
  offered : ℕ
  /-- The rows declared. -/
  offered_declared : ℕ
  /-- The finished calls. -/
  completed : ℕ
  /-- Those for which a response was read. -/
  responses_received : ℕ
  /-- The tasks pending at the end. -/
  pending_at_end : ℕ
  /-- The calls with a status that is not 200. -/
  errors_http : ℕ
  /-- Those with an error of the application. -/
  errors_app : ℕ
  /-- Those with an error of the transport. -/
  errors_transport : ℕ
  /-- Whether a row was not offered. -/
  truncated_by_stop : Bool
  /-- The rows withheld. -/
  withheld : ℕ
deriving DecidableEq

/-- `close_window`, and what `play_cycle_window` adds to it. -/
def closeWindow (w : Window) (calls : List CallRow) (pending : ℕ) : WindowRecord where
  phase := w.phase
  offered := w.offered
  offered_declared := w.rows.length
  completed := calls.length
  responses_received := calls.countP fun c => c.transport_error = ""
  pending_at_end := pending
  errors_http := calls.countP fun c =>
    c.transport_error = "" ∧ c.app_error = "" ∧ c.status ≠ some 200
  errors_app := calls.countP fun c => c.app_error ≠ ""
  errors_transport := calls.countP fun c => c.transport_error ≠ ""
  truncated_by_stop := decide (w.offered < w.rows.length)
  withheld := w.withheld

/-- The engine. -/
structure Engine where
  /-- The trace. -/
  trace : List Row
  /-- The runners, under their labels. -/
  runners : OrderedDict String Runner
  /-- The users admitted. -/
  calling : Finset String
  /-- The counters. -/
  state : EngineState
  /-- The calls finished since the last window that was closed. -/
  window_calls : List CallRow
  /-- The records of the windows. -/
  windows : List WindowRecord
  /-- Whether a stop was asked for. -/
  stopped : Bool
  /-- Where the driver is. -/
  driver : Driver
  /-- What the sampler was answered. -/
  intervals : List Interval

/-- A new engine. -/
def Engine.new (trace : List Row) : Engine where
  trace := trace
  runners := .empty
  calling := ∅
  state := ⟨"start", 0, 0, 0, 0, 0, 0, 0, [], []⟩
  window_calls := []
  windows := []
  stopped := false
  driver := .idle
  intervals := []

/-- What a thread does. -/
inductive Act where
  /-- The driver begins a phase, at an instant. -/
  | playWindow (phase : String) (now : ℚ)
  /-- The driver is at the top of its loop. -/
  | loop
  /-- The wait for a row's instant is cut short by a stop. -/
  | interrupted
  /-- A row is due: it is counted, or withheld. -/
  | due
  /-- The row is put in the inbox of its user. -/
  | put
  /-- The driver reads the next inbox. -/
  | sum
  /-- The driver waits and sums again. -/
  | again
  /-- The deadline of the drain has passed. -/
  | deadline
  /-- The driver takes the calls of its window. -/
  | takeCalls
  /-- The driver begins to tell the runners to end. -/
  | stopRunners
  /-- It tells the next one. -/
  | tell
  /-- A user's thread does something. -/
  | runner (label : String) (act : RunnerAct)
  /-- A pacer starts the thread of a user. -/
  | buildUser (label : String)
  /-- A pacer admits a user. -/
  | admitUser (label : String)
  /-- The driver pauses users. -/
  | pauseUsers (labels : List String)
  /-- A stop is asked for. -/
  | askStop
  /-- The sampler takes the interval. -/
  | takeInterval

/-- What the engine keeps of an act of a user's thread. -/
def Engine.account (e : Engine) (label : String) (r : Runner) : RunnerAct → Engine
  | .start _ => { e with state := e.state.countStarted }
  | .record _ =>
    match r.row label with
    | some row =>
      { e with state := e.state.recordCall row, window_calls := e.window_calls ++ [row] }
    | none => e
  | _ => e

/-- One step. -/
def step (e : Engine) : Act → Option Engine
  | .playWindow phase now =>
    match e.driver with
    | .idle =>
      match e.trace.filter fun row => row.phase = phase with
      | [] => some e
      | row :: rows =>
        let e := { e with state := { e.state with phase := phase, level_rate := row.rate } }
        if e.stopped then some { e with driver := .raised .stopRequested }
        else some { e with driver := .offering ⟨phase, row :: rows, now, 0, 0⟩ (row :: rows) }
    | _ => none
  | .loop =>
    match e.driver with
    | .offering w [] => some { e with driver := .draining w none }
    | .offering w (row :: rest) =>
      if e.stopped then some { e with driver := .draining w none }
      else some { e with driver := .pacing w row rest }
    | _ => none
  | .interrupted =>
    match e.driver with
    | .pacing w _ _ => if e.stopped then some { e with driver := .draining w none } else none
    | _ => none
  | .due =>
    match e.driver with
    | .pacing w row rest =>
      if row.user ∈ e.calling then
        some { e with state := e.state.countOffered, driver := .putting w row rest }
      else some { e with driver := .offering { w with withheld := w.withheld + 1 } rest }
    | _ => none
  | .put =>
    match e.driver with
    | .putting w row rest =>
      match e.runners.get row.user with
      | none => some { e with driver := .raised .keyError }
      | some r =>
        let task : Task := ⟨w.started + row.t_rel, w.phase⟩
        some { e with
          runners := e.runners.set row.user { r with inbox := r.inbox.put (some task) }
          driver := .offering { w with offered := w.offered + 1 } rest }
    | _ => none
  | .sum =>
    match e.driver with
    | .draining w sum =>
      match sumNext e.runners sum with
      | .changed => some { e with driver := .raised .runtimeError }
      | .more sum => some { e with driver := .draining w (some sum) }
      | .made 0 => some { e with driver := .closing w }
      | .made (_ + 1) => some { e with driver := .waiting w }
    | .reporting w calls sum =>
      match sumNext e.runners sum with
      | .changed => some { e with driver := .raised .runtimeError }
      | .more sum => some { e with driver := .reporting w calls (some sum) }
      | .made total =>
        some { e with windows := e.windows ++ [closeWindow w calls total], driver := .idle }
    | _ => none
  | .again =>
    match e.driver with
    | .waiting w => some { e with driver := .draining w none }
    | _ => none
  | .deadline =>
    match e.driver with
    | .waiting _ => some { e with driver := .raised .invalidRun }
    | _ => none
  | .takeCalls =>
    match e.driver with
    | .closing w =>
      some { e with
        window_calls := e.window_calls.filter fun c => c.phase ≠ w.phase
        driver := .reporting w (e.window_calls.filter fun c => c.phase = w.phase) none }
    | _ => none
  | .stopRunners =>
    match e.driver with
    | .idle => some { e with driver := .stopping (e.runners.items.map Prod.fst) none }
    | .raised error => some { e with driver := .stopping (e.runners.items.map Prod.fst) error }
    | _ => none
  | .tell =>
    match e.driver with
    | .stopping (label :: rest) error =>
      match e.runners.get label with
      | none => none
      | some r => some { e with
          runners := e.runners.set label { r with inbox := r.inbox.put none }
          driver := .stopping rest error }
    | _ => none
  | .runner label act =>
    match e.runners.get label with
    | none => none
    | some r =>
      (r.step label act).map fun r' =>
        { e.account label r act with runners := e.runners.set label r' }
  | .buildUser label =>
    match e.runners.get label with
    | none => some { e with runners := e.runners.set label .new }
    | some _ => none
  | .admitUser label => some { e with calling := insert label e.calling }
  | .pauseUsers labels =>
    match e.driver with
    | .idle => some { e with calling := e.calling.filter fun label => label ∉ labels }
    | _ => none
  | .askStop => some { e with stopped := true }
  | .takeInterval =>
    some { e with
      state := { e.state with lat := [], late := [] }
      intervals := e.intervals ++ [e.state.interval] }

end GenropyAsgi.Benchmarks.LoadEngine
