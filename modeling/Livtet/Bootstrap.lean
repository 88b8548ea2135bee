import Livtet.Engine

/-! # Bootstrap — mirroring a whole library

    `pull_full` dumps eleven tables as JSON objects, `apply_dump` inserts them row by
    row, and `bootstrap` then reads the first pages of the peer's log to find the
    cursor to go on from. A NULL, or an id that is not sixteen bytes long, is left
    out of its object. Every insert commits on its own. -/

namespace SyncBootstrap

open SqlRows JsonText SyncSchema SyncStore SyncEngine

/-- A row of a dump: its column names and values. -/
abbrev Object := List (String × Json)

structure FullDump where
  version : Int
  entities : SyncableEntityKind → List Object

/-- The rows of a dump in the order they are written. -/
def FullDump.rows (dump : FullDump) : List (SyncableEntityKind × Object) :=
  SyncableEntityKind.dumpOrder.flatMap fun k => (dump.entities k).map fun object => (k, object)

section Pull

variable (env : Env)

/-- One column of a dumped row; `none` where it is left out. -/
def dumpValue? : Value → Option Json
  | .null => none
  | .int n => some (.int n)
  | .real d => some (.real d)
  | .text s => some (.str s)
  | .blob b => if b.length = 16 then some (.str (env.ulidText b)) else none

def dumpRow (columns : List String) (r : Row) : Object :=
  columns.filterMap fun c => (dumpValue? env (r c)).map fun v => (c, v)

/-- `query_table`, for a table that is dumped. -/
def queryTable (db : Db) (k : SyncableEntityKind) : List Object :=
  match k.dumpColumns with
  | some columns => (db.tables k).rows.map fun r => dumpRow env columns r.val
  | none => []

def pullFull (db : Db) : FullDump where
  version := getLatestVersion db.log
  entities := queryTable env db

end Pull

/-! ## Applying a dump -/

structure MirrorError where
  table : String
  error : SqlError
deriving DecidableEq, Repr

section Apply

variable (env : Env) (now : String)

/-- `bind_json`: an id column's text is decoded, every other value keeps its type. -/
def bindJson (column : String) (value : Json) : Value :=
  match value with
  | .str text =>
      if isIdColumn column then
        match fromWire env text with
        | some id => .blob id
        | none => .text text
      else .text text
  | other => plainValue env other

def bindObject (object : Object) : Assignments :=
  object.map fun p => (p.1, bindJson env p.1 p.2)

/-- `apply_dump`: the number of rows written, and the database either way. -/
def applyDump : List (SyncableEntityKind × Object) → Nat → Db → Except MirrorError Nat × Db
  | [], written, db => (.ok written, db)
  | (k, object) :: rest, written, db =>
      if object.isEmpty then applyDump rest written db
      else match insertOrReplace env now k (bindObject env object) db with
        | .error error => (.error { table := k.tableName, error }, db)
        | .ok db => applyDump rest (written + 1) db

end Apply

/-! ## The cursor -/

def maxBootstrapPages : Nat := 20

/-- One page of the offer scan: the next probe, when there is one, and the cursor. -/
def scanPage (page : PullResponse) (cursor : Int) : Option Int × Int :=
  (if page.hasMore then some page.latestVersion else none, max cursor page.latestVersion)

/-- The offer scan over a log that does not change. -/
def scanPages (env : Env) (log : ChangeLog) (limit : Int) : Nat → Int → Int → Int
  | 0, _, cursor => cursor
  | pages + 1, probe, cursor =>
      match scanPage (pullChanges env log probe limit) cursor with
      | (none, cursor) => cursor
      | (some probe, cursor) => scanPages env log limit pages probe cursor

structure PullReport where
  applied : Nat
  cursor : Int
deriving DecidableEq, Repr

/-- `bootstrap` against a peer that makes no change meanwhile. -/
def bootstrap (env : Env) (now : String) (limit : Int) (peer device : Db) :
    Except MirrorError PullReport × Db :=
  let dump := pullFull env peer
  match applyDump env now dump.rows 0 device with
  | (.error e, device) => (.error e, device)
  | (.ok applied, device) =>
      (.ok { applied, cursor := scanPages env peer.log limit maxBootstrapPages 0 dump.version },
        device)

end SyncBootstrap
