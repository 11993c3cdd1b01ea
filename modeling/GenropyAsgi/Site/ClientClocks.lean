import Mathlib.Data.Rat.Defs
import Mathlib.Algebra.Order.Ring.Rat
import GenropyAsgi.Library.Dict
import GenropyAsgi.Library.Run
import GenropyAsgi.Site.Readers

/-!
# The clocks that the clients report

`_local_refresh` of `siteregister_client.py` with its two callers: `refresh`, and `handle_ping` for
the page and for each of its children. A value that a client reports is a datetime, which is
converted to a number at this boundary, or anything else, which is not. It is then folded into
`last_user_ts` and `last_rpc_ts` of the page, of its connection and of its user, one assignment
after the other, and an assignment that raises ends the call there.

A child's values are decoded by the site's catalog first. The catalog, the core's `refresh_chain`
and what Python makes of values of other types are the environment of the model.
-/

namespace GenropyAsgi.Site

open Library

/-- The exceptions of a refresh. -/
inductive ClockError where
  /-- `TypeError`: two values that cannot be compared, or a `None` subscripted. -/
  | typeError
  /-- `AttributeError`: a field of `None`. -/
  | attributeError
  /-- An exception of the code that is called. -/
  | raised
deriving DecidableEq

/-- A value that a client reports. -/
inductive Reported (O : Type) where
  /-- `None`. -/
  | absent
  /-- A datetime, by what its `timestamp()` answers, none where it raises. -/
  | datetime (timestamp : Option ℚ)
  /-- A number. -/
  | number (n : ℚ)
  /-- A text. -/
  | text (text : String)
  /-- A value of another type, one that cannot be compared with a number or a text. -/
  | other (other : O)

/-- The value of a clock on a row. -/
inductive ClockValue (O : Type) where
  /-- A number. -/
  | number (n : ℚ)
  /-- A text. -/
  | text (text : String)
  /-- A value of another type. -/
  | other (other : O)

/-- The two fields. -/
inductive ClockField where
  /-- `last_user_ts`. -/
  | last_user_ts
  /-- `last_rpc_ts`. -/
  | last_rpc_ts
deriving DecidableEq

/-- A row, with the fields that a refresh reads and writes. -/
structure ClientRow (O : Type) where
  /-- `connection_id` of a page, `user` of a connection. -/
  owner : String
  /-- The server's own stamp. -/
  last_refresh_ts : ℚ
  /-- The reported clocks. -/
  clock : ClockField → Option (ClockValue O)

/-- The register and the id of a row. -/
abbrev ItemKey := RegisterName × String

/-- The rows of the three registers. -/
abbrev Rows (O : Type) := Dict ItemKey (ClientRow O)

/-- The code that is called. -/
structure ClockEnv (O : Type) where
  /-- The truth of a value of another type. -/
  truthy : O → Bool
  /-- `>` on two values of other types. -/
  gt : O → O → Except ClockError Bool
  /-- `catalog.fromTypedText`. -/
  fromTypedText : String → Except ClockError (Reported O)
  /-- `worker.refresh_chain`, on the server's own clock. -/
  refresh_chain : Rows O → PageId → ℚ → Rows O
  /-- It stamps rows with that clock, and does nothing else. -/
  restamps : ∀ rows page_id now key, (refresh_chain rows page_id now).get key = rows.get key ∨
    (refresh_chain rows page_id now).get key =
      (rows.get key).map fun row => { row with last_refresh_ts := now }

variable {O : Type} (env : ClockEnv O)

/-- The truth of a clock. -/
def ClockValue.truthy : ClockValue O → Bool
  | .number n => decide (n ≠ 0)
  | .text t => decide (t ≠ "")
  | .other o => env.truthy o

/-- `value > current`. -/
def ClockValue.gt : ClockValue O → ClockValue O → Except ClockError Bool
  | .number value, .number current => .ok (decide (value > current))
  | .text value, .text current => .ok (decide (value > current))
  | .other value, .other current => env.gt value current
  | _, _ => .error .typeError

/-- `max(current, value) if current else value`. -/
def bumped (current : Option (ClockValue O)) (value : ClockValue O) :
    Except ClockError (ClockValue O) :=
  match current with
  | none => .ok value
  | some current =>
    if current.truthy env then
      match value.gt env current with
      | .error e => .error e
      | .ok greater => .ok (if greater then value else current)
    else .ok value

/-- An assignment of the loop of a refresh. -/
structure ClockWrite (O : Type) where
  /-- The row. -/
  key : ItemKey
  /-- The field. -/
  field : ClockField
  /-- The value that is folded in, none for `None`. -/
  value : Option (ClockValue O)

/-- One assignment. -/
def writeClock (rows : Rows O) (write : ClockWrite O) : Except ClockError (Rows O) :=
  match write.value with
  | none => .ok rows
  | some value =>
    match rows.get write.key with
    | none => .error .attributeError
    | some row =>
      match bumped env (row.clock write.field) value with
      | .error e => .error e
      | .ok clock =>
        .ok (rows.set write.key
          { row with clock := Function.update row.clock write.field (some clock) })

/-- The loop: the rows that it leaves, and the exception that ended it. -/
def writeClocks : Rows O → List (ClockWrite O) → Rows O × Option ClockError
  | rows, [] => (rows, none)
  | rows, write :: writes =>
    match writeClock env rows write with
    | .error e => (rows, some e)
    | .ok rows' => writeClocks rows' writes

/-- The assignments of a chain, in the order of the loop. -/
def chainWrites (page_id : PageId) (connection_id : ConnectionId) (user : User)
    (last_user_ts last_rpc_ts : Option (ClockValue O)) : List (ClockWrite O) :=
  [⟨(.page, page_id), .last_user_ts, last_user_ts⟩, ⟨(.page, page_id), .last_rpc_ts, last_rpc_ts⟩,
    ⟨(.connection, connection_id), .last_user_ts, last_user_ts⟩,
    ⟨(.connection, connection_id), .last_rpc_ts, last_rpc_ts⟩,
    ⟨(.user, user), .last_user_ts, last_user_ts⟩, ⟨(.user, user), .last_rpc_ts, last_rpc_ts⟩]

/-- The conversion at the boundary: a datetime becomes a number, another value stays as it is. -/
def Reported.converted : Reported O → Except ClockError (Option (ClockValue O))
  | .absent => .ok none
  | .datetime none => .error .raised
  | .datetime (some timestamp) => .ok (some (.number timestamp))
  | .number n => .ok (some (.number n))
  | .text t => .ok (some (.text t))
  | .other o => .ok (some (.other o))

/-- A call of `_local_refresh`. -/
structure RefreshCall (O : Type) where
  /-- The page. -/
  page_id : PageId
  /-- What the client reports for `last_user_ts`. -/
  last_user_ts : Reported O
  /-- What it reports for `last_rpc_ts`. -/
  last_rpc_ts : Reported O
  /-- The server's own clock at the call. -/
  now : ℚ

/-- The assignments that a call comes to, on the rows as `refresh_chain` has stamped them. There are
none where a value is not converted or the chain is broken before the loop. -/
def RefreshCall.loop (rows : Rows O) (call : RefreshCall O) :
    Rows O × Except ClockError (Option (User × List (ClockWrite O))) :=
  match call.last_user_ts.converted, call.last_rpc_ts.converted with
  | .error e, _ => (rows, .error e)
  | .ok _, .error e => (rows, .error e)
  | .ok last_user_ts, .ok last_rpc_ts =>
    match rows.get (.page, call.page_id) with
    | none => (rows, .ok none)
    | some page =>
      let stamped := env.refresh_chain rows call.page_id call.now
      match stamped.get (.connection, page.owner) with
      | none => (stamped, .error .typeError)
      | some connection =>
        (stamped, .ok (some (connection.owner,
          chainWrites call.page_id page.owner connection.owner last_user_ts last_rpc_ts)))

/-- `_local_refresh`: the rows, and the user's row that it answers. -/
def localRefresh (rows : Rows O) (call : RefreshCall O) :
    Rows O × Except ClockError (Option (ClientRow O)) :=
  match call.loop env rows with
  | (rows', .error e) => (rows', .error e)
  | (rows', .ok none) => (rows', .ok none)
  | (rows', .ok (some (user, writes))) =>
    match writeClocks env rows' writes with
    | (written, some e) => (written, .error e)
    | (written, none) => (written, .ok (written.get (.user, user)))

/-! ## The ping -/

/-- `_parse_typed`. -/
def parseTyped : Reported O → Except ClockError (Reported O)
  | .text t => env.fromTypedText t
  | value => .ok value

/-- What a ping carries for a child. -/
structure Child (O : Type) where
  /-- The child's page. -/
  child_id : PageId
  /-- `_lastUserEventTs`. -/
  last_user_ts : Reported O
  /-- `_lastRpc`. -/
  last_rpc : Reported O
  /-- Whether `set_serverstore_changes` raises on its other changes. -/
  fails : Bool
  /-- The server's clock when it is refreshed. -/
  now : ℚ

/-- A ping. -/
structure Ping (O : Type) where
  /-- The page. -/
  page_id : PageId
  /-- `_lastUserEventTs`. -/
  last_user_ts : Reported O
  /-- `_lastRpc`. -/
  last_rpc : Reported O
  /-- Whether `set_serverstore_changes` raises on its changes. -/
  fails : Bool
  /-- `_children_pages_info`. -/
  children : List (Child O)
  /-- The server's clock when the page is refreshed. -/
  now : ℚ

/-- The refresh of the page of a ping. -/
def Ping.call (ping : Ping O) : RefreshCall O :=
  ⟨ping.page_id, ping.last_user_ts, ping.last_rpc, ping.now⟩

/-- The refresh of a child, its values decoded; an exception comes before it. -/
def Child.call (child : Child O) : Except ClockError (RefreshCall O) :=
  if child.fails then .error .raised
  else
    match parseTyped env child.last_user_ts, parseTyped env child.last_rpc with
    | .error e, _ => .error e
    | .ok _, .error e => .error e
    | .ok last_user_ts, .ok last_rpc => .ok ⟨child.child_id, last_user_ts, last_rpc, child.now⟩

/-- The loop over the children, which the first exception ends. -/
def refreshChildren : Rows O → List (Child O) → Rows O × Except ClockError Unit
  | rows, [] => (rows, .ok ())
  | rows, child :: children =>
    match child.call env with
    | .error e => (rows, .error e)
    | .ok call =>
      match localRefresh env rows call with
      | (rows', .error e) => (rows', .error e)
      | (rows', .ok _) => refreshChildren rows' children

/-- `handle_ping`, as far as it touches the clocks, and whether it answers an envelope. -/
def handlePing (rows : Rows O) (ping : Ping O) : Rows O × Except ClockError Bool :=
  match localRefresh env rows ping.call with
  | (rows', .error e) => (rows', .error e)
  | (rows', .ok none) => (rows', .ok false)
  | (rows', .ok (some _)) =>
    if ping.fails then (rows', .error .raised)
    else
      match refreshChildren env rows' ping.children with
      | (rows'', .error e) => (rows'', .error e)
      | (rows'', .ok _) => (rows'', .ok true)

/-- The calls of the site. -/
inductive ClockAct (O : Type) where
  /-- `refresh`. -/
  | refresh (call : RefreshCall O)
  /-- `handle_ping`. -/
  | handle_ping (ping : Ping O)

/-- One call of the site, and whether it answers anything but `None` or `False`. -/
def clockServe (rows : Rows O) : ClockAct O → Rows O × Except ClockError Bool
  | .refresh call => (localRefresh env rows call).map id (Except.map Option.isSome)
  | .handle_ping ping => handlePing env rows ping

/-! ## The refreshes that a call makes -/

/-- One refresh, as a step. -/
def refreshStep (rows : Rows O) (call : RefreshCall O) : Option (Rows O) :=
  some (localRefresh env rows call).1

/-- The refreshes of the children of a ping. -/
def childCalls : Rows O → List (Child O) → List (RefreshCall O)
  | _, [] => []
  | rows, child :: children =>
    match child.call env with
    | .error _ => []
    | .ok call =>
      match localRefresh env rows call with
      | (_, .error _) => [call]
      | (rows', .ok _) => call :: childCalls rows' children

/-- The refreshes of one call of the site. -/
def actCalls (rows : Rows O) : ClockAct O → List (RefreshCall O)
  | .refresh call => [call]
  | .handle_ping ping =>
    match localRefresh env rows ping.call with
    | (rows', .ok (some _)) =>
      if ping.fails then [ping.call] else ping.call :: childCalls env rows' ping.children
    | _ => [ping.call]

/-- The refreshes of a sequence of calls, in their order. -/
def refreshesOf : Rows O → List (ClockAct O) → List (RefreshCall O)
  | _, [] => []
  | rows, act :: acts =>
    actCalls env rows act ++ refreshesOf (clockServe env rows act).1 acts

variable {env}

/-- The refreshes of the children lead where their loop does. -/
theorem run_childCalls :
    ∀ (rows : Rows O) (children : List (Child O)),
      run (refreshStep env) rows (childCalls env rows children) =
        some (refreshChildren env rows children).1
  | _, [] => rfl
  | rows, child :: children => by
    unfold childCalls refreshChildren
    cases child.call env with
    | error e => rfl
    | ok call =>
      dsimp only
      cases h : localRefresh env rows call with
      | mk rows' answer =>
        have hstep : refreshStep env rows call = some rows' := by rw [refreshStep, h]
        cases answer with
        | error e =>
          dsimp only
          rw [run_cons, hstep]
          rfl
        | ok user_item =>
          dsimp only
          rw [run_cons, hstep]
          exact run_childCalls rows' children

/-- The refreshes of a call of the site lead where the call does. -/
theorem run_actCalls (rows : Rows O) (act : ClockAct O) :
    run (refreshStep env) rows (actCalls env rows act) = some (clockServe env rows act).1 := by
  cases act with
  | refresh call => rfl
  | handle_ping ping =>
    unfold actCalls clockServe handlePing
    dsimp only
    cases h : localRefresh env rows ping.call with
    | mk rows' answer =>
      have hstep : refreshStep env rows ping.call = some rows' := by rw [refreshStep, h]
      cases answer with
      | error e =>
        dsimp only
        rw [run_cons, hstep]
        rfl
      | ok user_item =>
        cases user_item with
        | none =>
          dsimp only
          rw [run_cons, hstep]
          rfl
        | some user_item =>
          dsimp only
          split_ifs with hfails
          · rw [run_cons, hstep]
            rfl
          · rw [run_cons, hstep, Option.bind_some, run_childCalls]
            cases (refreshChildren env rows' ping.children) with
            | mk rows'' answer =>
              cases answer with
              | error e => rfl
              | ok _ => rfl

/-- The refreshes of a sequence of calls lead where the sequence does. -/
theorem run_refreshesOf :
    ∀ (rows : Rows O) (acts : List (ClockAct O)),
      run (refreshStep env) rows (refreshesOf env rows acts) =
        some (serve (clockServe env) rows acts).1
  | _, [] => rfl
  | rows, act :: acts => by
    unfold refreshesOf
    rw [run_append, run_actCalls, Option.bind_some, run_refreshesOf]
    rfl

end GenropyAsgi.Site
