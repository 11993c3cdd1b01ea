import Mathlib.Algebra.Field.Rat
import GenropyAsgi.Library.Listing
import GenropyAsgi.Library.Words
import GenropyAsgi.Benchmarks.StructuralDiff

/-!
# The replica

`replica.py`: `TraceReader` reads an archived run, and `Replica` performs it again, one exchange
after another, against a live stack. `IdentityMap` keeps, for each page id of the trace, the one
that the target minted in its place, and rewrites it in what is sent: in the query string and in the
values of a form, and nowhere else. With an archive of the target, each exchange is compared as it
is replayed, and the replay stops at the first divergence that nothing declares.

The stack is a parameter: what it answers to a request, and what its archive tells of the exchange
once it has been waited for. Its cookies, the encoding of a form, labels, printing and the duration
of the whole are not modelled. A text is the list of its characters. `Replay.sent` is history: the
code does not keep it.
-/

namespace GenropyAsgi.Benchmarks.Replica

open Library

/-- A text, as the list of its characters. -/
abbrev Text := List Char

/-! ## The page ids -/

/-- The characters of an identifier. -/
def isToken (c : Char) : Bool := c.isAlphanum || c == '_' || c == '-'

/-- A page id: what the group of `PAGE_ID_RE` matches. -/
structure PageId where
  /-- The characters. -/
  text : Text
  /-- There are 22 of them. -/
  length : text.length = 22
  /-- They are those of an identifier. -/
  all : text.all isToken = true
deriving DecidableEq

/-- What stands before a page id. -/
def opening : Text := "page_id:'".toList

/-- What stands after it. -/
def closing : Text := "'".toList

/-- `PAGE_ID_RE`, at the beginning of a text. -/
def matchPageId (html : Text) : Option PageId :=
  let found := (html.drop opening.length).take 22
  if h : found.length = 22 ∧ found.all isToken = true then
    if opening.isPrefixOf html ∧ closing.isPrefixOf (html.drop (opening.length + 22)) then
      some ⟨found, h.1, h.2⟩
    else none
  else none

/-- `get_page_id`: the first match of `PAGE_ID_RE`. -/
def getPageId : Text → Option PageId
  | [] => none
  | c :: html => (matchPageId (c :: html)).or (getPageId html)

/-- An `IdentityMap`. -/
structure IdentityMap where
  /-- `tokens`. -/
  tokens : OrderedDict PageId PageId

/-- `learn_page_id`. -/
def IdentityMap.learnPageId (identity : IdentityMap) (trace_body target_body : Text) :
    IdentityMap :=
  match getPageId trace_body, getPageId target_body with
  | some trace_id, some target_id => ⟨identity.tokens.set trace_id target_id⟩
  | _, _ => identity

/-- `get_adapted`. -/
def IdentityMap.getAdapted (identity : IdentityMap) (text : Text) : Text :=
  Words.replaceEach (identity.tokens.items.map fun item => (item.1.text, item.2.text)) text

/-! ## The trace -/

/-- A value of a form. -/
inductive FormValue where
  /-- A text. -/
  | text (text : Text)
  /-- A list of texts. -/
  | texts (texts : List Text)
  /-- Any other value, which is sent as it is. -/
  | other (json : Text)
deriving DecidableEq

/-- A recorded HTTP line. A text that is absent is empty. -/
structure Exchange where
  /-- Its id. -/
  exchange_id : Text
  /-- When it began, in seconds. -/
  ts : ℚ
  /-- How long it took, if the line tells it. -/
  duration_ms : Option ℚ
  /-- The method. -/
  method : Text
  /-- The path. -/
  path : Text
  /-- The query string. -/
  query : Text
  /-- The form, if there is one. -/
  form : Option (List (Text × FormValue))
  /-- The body of a request without form. -/
  req_body : Text
  /-- The `Content-Type` of the request. -/
  content_type : Text
  /-- The `Cookie` of the request. -/
  cookie : Option Text
  /-- The status that was answered. -/
  status : ℤ
  /-- The body that was answered. -/
  resp_body : Text
  /-- The method called, of a call. -/
  rpc_method : Text
  /-- Why the recorder made a stub of it. -/
  filtered : Text
deriving DecidableEq

/-- Why an exchange is not replayed. -/
inductive SkipReason where
  /-- `"static"`. -/
  | static
  /-- `"ping"`. -/
  | ping
deriving DecidableEq

/-- `get_skip_reason`. -/
def getSkipReason (record : Exchange) : Option SkipReason :=
  if record.filtered = "static".toList then some .static
  else if "_ping".toList ∈ record.path.splitOn '/' then some .ping
  else none

/-- A `TraceReader`. -/
structure TraceReader where
  /-- `records`, oldest first. -/
  records : List Exchange
  /-- `get_register_lines`. -/
  get_register_lines : Text → List LineShape
  /-- The stack that the run declares. -/
  stack : Option Text
  /-- The database that it declares. -/
  dbname : Option Text

namespace TraceReader

/-- `exchanges`. -/
def exchanges (trace : TraceReader) : List Exchange :=
  trace.records.filter fun record => getSkipReason record = none

/-- `cold_start_exchanges`: those before the first call, and none in a run without calls. -/
def coldStartExchanges (trace : TraceReader) : List Exchange :=
  if trace.exchanges.any fun record => record.rpc_method ≠ [] then
    trace.exchanges.takeWhile fun record => record.rpc_method = []
  else []

/-- `get_overlapped_exchange`. -/
def getOverlappedExchange (trace : TraceReader) (record : Exchange) : Option Exchange :=
  trace.records.find? fun earlier =>
    match earlier.duration_ms with
    | none => false
    | some duration_ms =>
      earlier.exchange_id ≠ record.exchange_id ∧ duration_ms ≠ 0 ∧ earlier.ts < record.ts ∧
        record.ts < earlier.ts + duration_ms / 1000 ∧ earlier.cookie = record.cookie

end TraceReader

/-- `CONNECTION_ROTATED`. -/
def CONNECTION_ROTATED : Text := "The connection is not longer valid".toList

/-- A rule that tells why a recorded status cannot be replayed. -/
structure StatusRule where
  /-- Its name. -/
  name : Text
  /-- `get_status_reason`, empty for none. -/
  get_status_reason : TraceReader → Exchange → Text

/-- `ReferenceRace`. -/
def referenceRace : StatusRule where
  name := "reference-race".toList
  get_status_reason := fun trace record =>
    if ¬ CONNECTION_ROTATED <:+: record.resp_body then []
    else
      match trace.getOverlappedExchange record with
      | none => []
      | some overlapped =>
        "the connection was rotated by ".toList ++
          (if overlapped.rpc_method = [] then overlapped.path else overlapped.rpc_method) ++
            ", still in flight on the same cookie".toList

/-- `DeclaredRules.get_status_reason`: the first rule with a reason. -/
def getStatusReason (rules : List StatusRule) (trace : TraceReader) (record : Exchange) :
    Option Text :=
  rules.findSome? fun rule =>
    let reason := rule.get_status_reason trace record
    if reason = [] then none else some (rule.name ++ ": ".toList ++ reason)

/-! ## The requests -/

/-- The body of a request. -/
inductive Body where
  /-- None. -/
  | none
  /-- A form. -/
  | form (items : List (Text × FormValue))
  /-- A text, with its `Content-Type`. -/
  | raw (body content_type : Text)
deriving DecidableEq

/-- A request. -/
structure Request where
  /-- `REPLICA_HEADER`. -/
  replica_of : Text
  /-- Whether it is a `GET`, or a `POST`. -/
  get : Bool
  /-- The path and the query string. -/
  target : Text
  /-- The body. -/
  body : Body
deriving DecidableEq

/-- The path and the query string, with a rewriting of the latter. -/
def targetWith (adapt : Text → Text) (record : Exchange) : Text :=
  let path := if record.path = [] then "/".toList else record.path
  if record.query = [] then path else path ++ "?".toList ++ adapt record.query

/-- A value of a form, rewritten. -/
def FormValue.adapted (adapt : Text → Text) : FormValue → FormValue
  | .text value => .text (adapt value)
  | .texts values => .texts (values.map adapt)
  | .other json => .other json

/-- `get_adapted_path`. -/
def getAdaptedPath (identity : IdentityMap) (record : Exchange) : Text :=
  targetWith identity.getAdapted record

/-- `get_adapted_form`. -/
def getAdaptedForm (identity : IdentityMap) (items : List (Text × FormValue)) :
    List (Text × FormValue) :=
  items.map fun item => (item.1, item.2.adapted identity.getAdapted)

/-- What `replay_exchange` sends. -/
def requestOf (identity : IdentityMap) (record : Exchange) : Request where
  replica_of := record.exchange_id
  get := record.method = "GET".toList
  target := getAdaptedPath identity record
  body :=
    if record.method = "GET".toList then .none
    else
      match record.form with
      | some items => .form (getAdaptedForm identity items)
      | none => .raw record.req_body record.content_type

/-! ## The replay -/

/-- What a stack answers. -/
structure Reply where
  /-- The status. -/
  status : ℤ
  /-- The body, decoded. -/
  body : Text

/-- What the archive of the target tells of an exchange. -/
structure Answered where
  /-- Its register lines. -/
  lines : List LineShape
  /-- How long it took, if the line tells it. -/
  duration_ms : Option ℚ

/-- Two stacks, and how they are compared. -/
structure Setting (S : Type) where
  /-- The reference. -/
  trace : TraceReader
  /-- What the target makes of a request; the client may raise. -/
  serve : S → Request → Option (S × Reply)
  /-- What the archive of the target tells of the exchange stamped with an id, if there is an
  archive and the exchange is found in time. -/
  archive : Option (S → Text → Option Answered)
  /-- The rules for a status. -/
  status_rules : List StatusRule
  /-- The rules for a divergence. -/
  divergence_rules : List DeclaredRule
  /-- How two sequences of lines are aligned. -/
  matcher : SequenceMatcher AlignmentKey

/-- A status that is not the recorded one. -/
structure Mismatch where
  /-- The position of the exchange. -/
  position : ℕ
  /-- Its path. -/
  path : Text
  /-- The method called. -/
  rpc_method : Text
  /-- The recorded status. -/
  expected : ℤ
  /-- The status answered. -/
  status : ℤ

/-- Why an exchange was not compared. -/
inductive Skipped where
  /-- The reference raced. -/
  | race (reason : Text)
  /-- It comes before the first call. -/
  | coldStart
  /-- The archive of the target does not tell of it. -/
  | notArchived

/-- What an exchange measured. -/
structure Row where
  /-- Its position. -/
  position : ℕ
  /-- The status. -/
  status : ℤ
  /-- How many register lines the reference has, if they were compared. -/
  reference_lines : Option ℕ
  /-- How many the replica has. -/
  replica_lines : Option ℕ
  /-- How long the reference took. -/
  reference_ms : Option ℚ
  /-- How long the replica took. -/
  replica_ms : Option ℚ

/-- A `Replica` on its way. -/
structure Replay (S : Type) where
  /-- The target. -/
  server : S
  /-- The page ids. -/
  identity : IdentityMap
  /-- The requests that were answered. -/
  sent : List Request
  /-- The statuses that nothing explains. -/
  failures : List Mismatch
  /-- Those that a rule explains. -/
  races : List (Mismatch × Text)
  /-- The exchanges compared, with the numbers of lines. -/
  compared : List (ℕ × ℕ × ℕ)
  /-- The exchanges not compared. -/
  uncompared : List (ℕ × Skipped)
  /-- What the archive of the target told, under the ids of the exchanges. -/
  replayed : OrderedDict Text (Option Answered)
  /-- The rows of the table. -/
  rows : List Row
  /-- The differences that a rule recognised. -/
  known : List (Divergence Exchange × String)
  /-- The first divergence that nothing declares. -/
  divergence : Option (Divergence Exchange)
  /-- Whether the client raised. -/
  raised : Bool

/-- A new replica. -/
def Replay.new {S : Type} (server : S) : Replay S :=
  ⟨server, ⟨.empty⟩, [], [], [], [], [], .empty, [], [], none, false⟩

section Loop

variable {S : Type} (setting : Setting S)

/-- What an exchange is compared with, or why it is not. -/
def verdict (record : Exchange) (race : Option Text) (replayed : Option Answered) :
    Skipped ⊕ Answered :=
  match race with
  | some reason => .inl (.race reason)
  | none =>
    if record.exchange_id ∈ setting.trace.coldStartExchanges.map Exchange.exchange_id then
      .inl .coldStart
    else
      match replayed with
      | none => .inl .notArchived
      | some answered => .inr answered

/-- `compare_exchange`. -/
def compareExchange (replay : Replay S) (record : Exchange) (position : ℕ) (race : Option Text) :
    Replay S :=
  if setting.archive.isNone then replay
  else
    match verdict setting record race (replay.replayed.get record.exchange_id).join with
    | .inl reason => { replay with uncompared := replay.uncompared ++ [(position, reason)] }
    | .inr answered =>
      let lines := setting.trace.get_register_lines record.exchange_id
      let result := getDivergence lines answered.lines record position setting.matcher
        setting.divergence_rules
      { replay with
        compared := replay.compared ++ [(position, lines.length, answered.lines.length)]
        known := replay.known ++ result.2
        divergence := result.1 }

/-- `get_row`. -/
def getRow (replay : Replay S) (record : Exchange) (position : ℕ) (status : ℤ) : Row :=
  let compared := replay.compared.find? fun entry => entry.1 = position
  { position := position
    status := status
    reference_lines := compared.map fun entry => entry.2.1
    replica_lines := compared.map fun entry => entry.2.2
    reference_ms := record.duration_ms
    replica_ms := (replay.replayed.get record.exchange_id).join.bind Answered.duration_ms }

/-- The status of an exchange, against the recorded one. -/
def checkStatus (replay : Replay S) (record : Exchange) (position : ℕ) (status : ℤ)
    (race : Option Text) : Replay S :=
  let mismatch : Mismatch := ⟨position, record.path, record.rpc_method, record.status, status⟩
  if status = record.status then replay
  else
    match race with
    | some reason => { replay with races := replay.races ++ [(mismatch, reason)] }
    | none => { replay with failures := replay.failures ++ [mismatch] }

/-- What the archive of the target tells of the exchange just replayed. -/
def readArchive (replay : Replay S) (record : Exchange) : Replay S :=
  match setting.archive with
  | none => replay
  | some archive =>
    { replay with
      replayed := replay.replayed.set record.exchange_id
        (archive replay.server record.exchange_id) }

/-- Why a status is not the recorded one, if it is not. -/
def raceOf (record : Exchange) (status : ℤ) : Option Text :=
  if status = record.status then none
  else getStatusReason setting.status_rules setting.trace record

/-- The body of the loop of `run`; nothing where the client raises. -/
def replayOne (replay : Replay S) (record : Exchange) (position : ℕ) : Option (Replay S) :=
  let request := requestOf replay.identity record
  (setting.serve replay.server request).map fun answer =>
    let status := answer.2.status
    let race := raceOf setting record status
    let replay :=
      { replay with
        server := answer.1
        identity := replay.identity.learnPageId record.resp_body answer.2.body
        sent := replay.sent ++ [request] }
    let replay := checkStatus replay record position status race
    let replay := compareExchange setting (readArchive setting replay record) record position race
    { replay with rows := replay.rows ++ [getRow replay record position status] }

/-- The loop of `run`, from a position on. -/
def replayFrom (replay : Replay S) : ℕ → List Exchange → Replay S
  | _, [] => replay
  | position, record :: records =>
    match replayOne setting replay record position with
    | none => { replay with raised := true }
    | some replay =>
      if replay.divergence.isSome then replay else replayFrom replay (position + 1) records

/-- Why a replay does not begin. -/
inductive Refusal where
  /-- The two stacks carry different sources. -/
  | parity
  /-- They write into one database. -/
  | database

/-- `DatabaseSeparation.separated`. -/
def separated (reference target : TraceReader) : Prop :=
  reference.stack = target.stack ∨ reference.dbname ≠ target.dbname

instance (reference target : TraceReader) : Decidable (separated reference target) :=
  inferInstanceAs (Decidable (_ ∨ _))

/-- `run`. -/
def replicaRun (aligned : Bool) (target : Option TraceReader) (server : S) :
    Except Refusal (Replay S) :=
  if !aligned then .error .parity
  else if target.any fun target => ¬ separated setting.trace target then .error .database
  else .ok (replayFrom setting (.new server) 1 setting.trace.exchanges)

/-- The exit status of `main`. -/
def exitStatus (replay : Replay S) : ℕ :=
  if replay.raised ∨ replay.divergence.isSome ∨ replay.failures ≠ [] then 1 else 0

end Loop

end GenropyAsgi.Benchmarks.Replica
