import GenropyAsgi.Library.Listing
import GenropyAsgi.Library.Lookups
import GenropyAsgi.Change

/-!
# The readers of the site client

`pages`, `connections` and `users` of `siteregister_client.py`, with what they call: `_live_rows`,
`_page_owner`, `_filter_items`, `_adapt_to_legacy`, `_item_subscribed_paths`. They take no lock. A
reader is therefore a program that looks at the registers, and each access to a register, to an edge
set or to a field of a row is one look: other threads may act between any two of them.

A register refers to its rows, and a row that has left its register is still read by whoever holds
the reference.
-/

namespace GenropyAsgi.Site

open Library

variable {V : Type}

/-- The exceptions of the readers. -/
inductive SiteError where
  /-- `ValueError`. -/
  | valueError (text : String)
deriving DecidableEq

/-! ## The registers -/

/-- The three registers. -/
inductive RegisterName where
  /-- `"page"`. -/
  | page
  /-- `"connection"`. -/
  | connection
  /-- `"user"`. -/
  | user
deriving DecidableEq

/-- The value of a field of a row, as the readers distinguish it. -/
inductive Field (V : Type) where
  /-- `None`, also that of a missing field. -/
  | none
  /-- A text. -/
  | text (text : String)
  /-- A set of names. -/
  | names (names : List String)
  /-- Any other value. -/
  | value (value : V)

/-- The identity of a row object. -/
abbrev Object := ℕ

/-- A reference to a row, with the register that it belongs to. -/
structure Ref where
  /-- The register. -/
  register : RegisterName
  /-- The row. -/
  object : Object
deriving DecidableEq

/-- The row of a page. -/
structure PageItem (V : Type) where
  /-- Its own id. -/
  register_item_id : PageId
  /-- The connection that it belongs to. -/
  connection_id : ConnectionId
  /-- The captured prefixes of its store. -/
  subscribed_paths : List String
  /-- The tables that it subscribes. -/
  table_subscriptions : List Table
  /-- The server's clock at its last refresh. -/
  last_refresh_ts : Instant
  /-- The other fields. -/
  fields : Dict String (Field V)

/-- The row of a connection. -/
structure ConnectionItem (V : Type) where
  /-- Its own id. -/
  register_item_id : ConnectionId
  /-- The user that it is labelled with. -/
  user : User
  /-- Its pages. -/
  pages : List PageId
  /-- The server's clock at its last refresh. -/
  last_refresh_ts : Instant
  /-- The other fields. -/
  fields : Dict String (Field V)

/-- The row of a user. -/
structure UserItem (V : Type) where
  /-- Its own id, the user's name. -/
  register_item_id : User
  /-- Its connections. -/
  connections : List ConnectionId
  /-- The server's clock at its last refresh. -/
  last_refresh_ts : Instant
  /-- The other fields. -/
  fields : Dict String (Field V)

/-- `page.get(name)`. -/
def PageItem.get [PyValue V] (item : PageItem V) : String → Field V
  | "register_item_id" => .text item.register_item_id
  | "connection_id" => .text item.connection_id
  | "subscribed_paths" => .names item.subscribed_paths
  | "table_subscriptions" => .names item.table_subscriptions
  | "last_refresh_ts" => .value (PyValue.ofInstant item.last_refresh_ts)
  | name => (item.fields.get name).getD .none

/-- `connection.get(name)`. -/
def ConnectionItem.get [PyValue V] (item : ConnectionItem V) : String → Field V
  | "register_item_id" => .text item.register_item_id
  | "user" => .text item.user
  | "pages" => .names item.pages
  | "last_refresh_ts" => .value (PyValue.ofInstant item.last_refresh_ts)
  | name => (item.fields.get name).getD .none

/-- `user.get(name)`. -/
def UserItem.get [PyValue V] (item : UserItem V) : String → Field V
  | "register_item_id" => .text item.register_item_id
  | "connections" => .names item.connections
  | "last_refresh_ts" => .value (PyValue.ofInstant item.last_refresh_ts)
  | name => (item.fields.get name).getD .none

/-- The registers at one moment, with every row that somebody may hold a reference to. -/
structure Registers (V : Type) where
  /-- The row that a key refers to, in each register. -/
  register : RegisterName → OrderedDict String Object
  /-- The index behind `keys_by("connection_id", ...)`. -/
  keys_by_connection : ConnectionId → List PageId
  /-- The page rows. -/
  page : Object → PageItem V
  /-- The connection rows. -/
  connection : Object → ConnectionItem V
  /-- The user rows. -/
  user : Object → UserItem V

namespace Registers

/-- `row["register_item_id"]`. -/
def itemId (s : Registers V) (item : Ref) : String :=
  match item.register with
  | .page => (s.page item.object).register_item_id
  | .connection => (s.connection item.object).register_item_id
  | .user => (s.user item.object).register_item_id

/-- `row["last_refresh_ts"]`. -/
def lastRefreshTs (s : Registers V) (item : Ref) : Instant :=
  match item.register with
  | .page => (s.page item.object).last_refresh_ts
  | .connection => (s.connection item.object).last_refresh_ts
  | .user => (s.user item.object).last_refresh_ts

/-- `row.get(name)`. -/
def field [PyValue V] (s : Registers V) (item : Ref) (name : String) : Field V :=
  match item.register with
  | .page => (s.page item.object).get name
  | .connection => (s.connection item.object).get name
  | .user => (s.user item.object).get name

/-- `register.get(key)`, the reference to a row. -/
def find (s : Registers V) (register : RegisterName) (key : String) : Option Ref :=
  ((s.register register).get key).map fun object => ⟨register, object⟩

/-- `list(register.keys())`. -/
def keys (s : Registers V) (register : RegisterName) : List String :=
  (s.register register).items.map Prod.fst

end Registers

/-- A reader. -/
abbrev Reader (V α : Type) := Lookups (Registers V) SiteError α

/-- `_live_rows`. -/
def liveRows (register : RegisterName) (keys : List String) : Reader V (List Ref) :=
  Lookups.gather (fun key => do
    let row ← Lookups.read fun s => s.find register key
    pure row.toList) keys

/-- `_page_owner`. -/
def pageOwner (page_id : PageId) : Reader V (Option User) := do
  let page ← Lookups.read fun s => s.find .page page_id
  match page with
  | none => pure none
  | some page =>
    let connection_id ← Lookups.read fun s => (s.page page.object).connection_id
    let connection ← Lookups.read fun s => s.find .connection connection_id
    match connection with
    | none => pure none
    | some connection =>
      let user ← Lookups.read fun s => (s.connection connection.object).user
      pure (some user)

/-! ## The filter -/

/-- `re`, the engine of the patterns: what it compiles, and whether a compiled pattern matches at
the start of a text. -/
structure RegexEngine where
  /-- A compiled pattern. -/
  Pattern : Type
  /-- `re.compile`, `none` for an `re.error`. -/
  compile : String → Option Pattern
  /-- `pattern.match(text)`. -/
  patternMatch : Pattern → String → Bool

/-- The value of a clause: a compiled pattern, or the text that does not compile. -/
inductive FilterValue (Pattern : Type) where
  /-- A compiled pattern. -/
  | pattern (pattern : Pattern)
  /-- A plain text. -/
  | text (text : String)

/-- `text.split(separator)`, on the characters: how many of them are still part of the separator,
and the piece so far, its last character first. -/
def splitText (separator : List Char) : ℕ → List Char → List Char → List (List Char)
  | _, piece, [] => [piece.reverse]
  | skip + 1, piece, _ :: rest => splitText separator skip piece rest
  | 0, piece, char :: rest =>
    if separator.isPrefixOf (char :: rest) then
      piece.reverse :: splitText separator (separator.length - 1) [] rest
    else splitText separator 0 (char :: piece) rest

/-- `fltname, fltvalue = flt.split(":", 1)`, which raises on a clause without a colon. -/
def splitClause (flt : List Char) : Option (String × String) :=
  match flt.dropWhile (· ≠ ':') with
  | [] => none
  | _ :: fltvalue => some (String.ofList (flt.takeWhile (· ≠ ':')), String.ofList fltvalue)

/-- The clauses of a filter, names with the texts of their patterns, if every clause has a colon. -/
def clausesOf (filters : String) : Option (List (String × String)) :=
  (splitText " AND ".toList 0 [] filters.toList).mapM splitClause

/-- The value of a clause, given the text of its pattern. -/
def filterValue (engine : RegexEngine) (fltvalue : String) : FilterValue engine.Pattern :=
  match engine.compile fltvalue with
  | some pattern => .pattern pattern
  | none => .text fltvalue

/-- `fltdict`: the clauses by name. -/
def filterDict (engine : RegexEngine) (clauses : List (String × String)) :
    OrderedDict String (FilterValue engine.Pattern) :=
  OrderedDict.empty.assign (clauses.map fun clause => (clause.1, filterValue engine clause.2))

/-- The test of one clause on the value that it names. A value that is not a text is compared with
the text of the pattern, and is no text. -/
def clauseMatches (engine : RegexEngine) (value : Field V) :
    FilterValue engine.Pattern → Bool
  | .pattern fltpat =>
    match value with
    | .text text => if text = "" then false else engine.patternMatch fltpat text
    | _ => false
  | .text fltpat =>
    match value with
    | .text text => if text = "" then false else fltpat == text
    | _ => false

/-- The value that a clause names: a field of the row, but the owner's name for `user`. -/
def clauseValue [PyValue V] (item : Ref) (fltname : String) : Reader V (Field V) :=
  if fltname = "user" then do
    let item_id ← Lookups.read fun s => s.itemId item
    let user ← pageOwner item_id
    pure ((user.map Field.text).getD .none)
  else Lookups.read fun s => s.field item fltname

/-- A text argument, `none` also for an empty one: `if argument:`. -/
def given (argument : Option String) : Option String := argument.filter (· ≠ "")

/-- `_filter_items`. -/
def filterItems [PyValue V] (engine : RegexEngine) (items : List Ref) (filters : Option String) :
    Reader V (List Ref) :=
  match given filters with
  | none => pure items
  | some filters =>
    if filters = "*" then pure items
    else
      match clausesOf filters with
      | none => .raise (.valueError "not enough values to unpack (expected 2, got 1)")
      | some clauses =>
        Lookups.gather (fun item =>
          Lookups.gather (fun clause => do
            let value ← clauseValue item clause.1
            pure (if clauseMatches engine value clause.2 then [item] else []))
          (filterDict engine clauses).items) items

/-! ## The legacy view -/

/-- `LEGACY_REGISTER_ITEM_FIELDS`. -/
def legacyRegisterItemFields : RegisterName → List String
  | .connection => ["register_item_id", "start_ts", "connection_name", "user", "user_id",
      "user_name", "user_tags", "user_ip", "user_agent", "electron_static", "browser_name", "pages",
      "avatar_extra"]
  | .user => ["register_item_id", "start_ts", "user", "user_id", "user_name", "user_tags",
      "avatar_extra", "connections"]
  | .page => ["register_item_id", "pagename", "connection_id", "start_ts", "subscribed_tables",
      "user", "user_ip", "user_agent", "relative_url"]

/-- The legacy view of a row. -/
structure LegacyItem (V : Type) where
  /-- The register of the row. -/
  register_name : RegisterName
  /-- The queue, which goes out empty. -/
  datachanges : List (Change V)
  /-- Its index. -/
  datachanges_idx : ℕ
  /-- The captured prefixes of a page. -/
  subscribed_paths : List String
  /-- The fields of the daemon's row. -/
  fields : OrderedDict String (Field V)

/-- `_item_subscribed_paths`. -/
def itemSubscribedPaths (register_item_id : String) (register_name : RegisterName) :
    Reader V (List String) :=
  if register_name ≠ .page then pure []
  else do
    let page ← Lookups.read fun s => s.find .page register_item_id
    match page with
    | none => pure []
    | some page => Lookups.read fun s => (s.page page.object).subscribed_paths

/-- The names of a set, none for any other value. -/
def namesOf : Field V → List String
  | .names names => names
  | _ => []

/-- Whether a looked-up field is `None`. -/
def isNone : Option (Field V) → Bool
  | none => true
  | some .none => true
  | some _ => false

/-- What `_adapt_to_legacy` puts over the fields read off the row. -/
def derivedFields [PyValue V] (register_item : Ref) (item_id : String)
    (adapted : OrderedDict String (Field V)) : Reader V (OrderedDict String (Field V)) :=
  match register_item.register with
  | .page => do
    let user ← pageOwner item_id
    let tables ← Lookups.read fun s => s.field register_item "table_subscriptions"
    pure ((adapted.set "user" ((user.map Field.text).getD .none)).set "subscribed_tables"
      (.names (namesOf tables)))
  | .user => pure (adapted.set "user" (.text item_id))
  | .connection => pure adapted

/-- The `start_ts` of a row that was born without one: the last refresh, as a naive local
datetime. -/
def withStartTs (localTime : Instant → V) (register_item : Ref)
    (adapted : OrderedDict String (Field V)) : Reader V (OrderedDict String (Field V)) :=
  if isNone (adapted.get "start_ts") then do
    let last_refresh_ts ← Lookups.read fun s => s.lastRefreshTs register_item
    pure (adapted.set "start_ts" (.value (localTime last_refresh_ts)))
  else pure adapted

/-- `_adapt_to_legacy`; `localTime` is the naive local datetime of an instant. -/
def adaptToLegacy [PyValue V] (localTime : Instant → V) :
    Option Ref → Reader V (Option (LegacyItem V))
  | none => pure none
  | some register_item => do
    let item_id ← Lookups.read fun s => s.itemId register_item
    let subscribed_paths ← itemSubscribedPaths item_id register_item.register
    let fields ← Lookups.gather (fun field => do
      let value ← Lookups.read fun s => s.field register_item field
      pure [(field, value)]) (legacyRegisterItemFields register_item.register)
    let derived ← derivedFields register_item item_id (OrderedDict.empty.assign fields)
    let adapted ← withStartTs localTime register_item derived
    pure (some ⟨register_item.register, [], 0, subscribed_paths, adapted⟩)

/-- What a reader answers: the views of its rows, by the ids of the rows. -/
def adaptListToDict [PyValue V] (localTime : Instant → V) (items : List Ref) :
    Reader V (OrderedDict String (Option (LegacyItem V))) := do
  let pairs ← Lookups.gather (fun item => do
    let item_id ← Lookups.read fun s => s.itemId item
    let adapted ← adaptToLegacy localTime (some item)
    pure [(item_id, adapted)]) items
  pure (OrderedDict.empty.assign pairs)

/-! ## The readers -/

/-- `list((entry or {}).get("connections", ()))`, for the row of a user. -/
def connectionsOf (user : User) : Reader V (List ConnectionId) := do
  let entry ← Lookups.read fun s => s.find .user user
  match entry with
  | none => pure []
  | some entry => Lookups.read fun s => (s.user entry.object).connections

/-- The rows that `pages` filters. -/
def pageRows (connection_id user : Option String) : Reader V (List Ref) :=
  match given connection_id with
  | some connection_id => do
    let keys ← Lookups.read fun s => s.keys_by_connection connection_id
    let items ← liveRows .page keys
    match given user with
    | none => pure items
    | some user =>
      Lookups.gather (fun item => do
        let item_id ← Lookups.read fun s => s.itemId item
        let owner ← pageOwner item_id
        pure (if owner = some user then [item] else [])) items
  | none =>
    match given user with
    | some user => do
      let connections ← connectionsOf user
      Lookups.gather (fun cid => do
        let connection ← Lookups.read fun s => s.find .connection cid
        match connection with
        | none => pure []
        | some connection =>
          let pages ← Lookups.read fun s => (s.connection connection.object).pages
          liveRows .page pages) connections
    | none => do
      let keys ← Lookups.read fun s => s.keys .page
      liveRows .page keys

/-- `pages`. -/
def pages [PyValue V] (engine : RegexEngine) (localTime : Instant → V)
    (connection_id user filters : Option String) :
    Reader V (OrderedDict PageId (Option (LegacyItem V))) := do
  let items ← pageRows connection_id user
  let filtered ← filterItems engine items filters
  adaptListToDict localTime filtered

/-- The keys that `connections` walks. -/
def connectionKeys (user : Option String) : Reader V (List ConnectionId) :=
  match given user with
  | some user => connectionsOf user
  | none => Lookups.read fun s => s.keys .connection

/-- `connections`. -/
def connections [PyValue V] (localTime : Instant → V) (user : Option String) :
    Reader V (OrderedDict ConnectionId (Option (LegacyItem V))) := do
  let keys ← connectionKeys user
  let items ← liveRows .connection keys
  adaptListToDict localTime items

/-- `users`. -/
def users [PyValue V] (localTime : Instant → V) :
    Reader V (OrderedDict User (Option (LegacyItem V))) := do
  let keys ← Lookups.read fun s => s.keys .user
  let items ← liveRows .user keys
  adaptListToDict localTime items

end GenropyAsgi.Site
