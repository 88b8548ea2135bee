import Livtet.BrokenRebuild
import Livtet.Lib.JsonDocs

/-! # Opening and migrating an index directory

    Beside the index lies a file with the version of the schema it was built by. Opening
    asks for the version of this build; a migration rebuilds an index of an older version
    and refuses one of a newer. Both keep the index they find, and the index library opens
    one only with the schema it was created with: the directory is never dropped, so an
    index of an older schema is never rebuilt (`repairs_iff`). -/

namespace Migration

open SyncStore (Env)
open DocIndex SearchIndex Reindex BrokenRebuild JsonText

/-- `SCHEMA_VERSION`. -/
def schemaVersion : Nat := 4

/-- What is written beside the index. -/
def versionPayload : Json := .obj [("schema_version", .int schemaVersion)]

/-- The JSON library, on the text of that file: it reads what it wrote, and the line feed
    behind it. -/
structure SerdeText where
  parse : String → Except String Json
  toText : Json → String
  parse_toText : parse (toText versionPayload ++ "\n") = .ok versionPayload

/-- An index directory: the index, with the schema it was created with and its documents,
    and the file beside it. -/
structure IndexDir (Schema : Type) where
  index : Option (Schema × List Document)
  sidecar : Option String

/-- `as_u64`. -/
def asU64? : Json → Option Nat
  | .int n => if 0 ≤ n ∧ n < 2 ^ 64 then some n.toNat else none
  | _ => none

section Opening

variable {Schema : Type} [DecidableEq Schema] (builds : Nat → Schema) (serde : SerdeText)
  (metaPath : String)

/-- `parsed.get("schema_version").and_then(|v| v.as_u64())`. -/
def declared? (parsed : Json) : Option Nat := (parsed.get? "schema_version").bind asU64?

/-- The version is cut to 32 bits, and one where the member is missing. -/
def readSchemaVersion (dir : IndexDir Schema) : Except SearchError (Option Nat) :=
  match dir.sidecar with
  | none => .ok none
  | some raw =>
      match serde.parse raw with
      | .error e =>
          .error (.tantivy ("malformed search_schema_version.json at " ++ metaPath ++ ": " ++ e))
      | .ok parsed => .ok (some (((declared? parsed).map (· % 2 ^ 32)).getD 1))

def writeSchemaVersion (dir : IndexDir Schema) : IndexDir Schema :=
  { dir with sidecar := some (serde.toText versionPayload ++ "\n") }

/-- The index is created where there is none; one of another schema is not opened. -/
def openIndexParts (dir : IndexDir Schema) : Except SearchError (List Document × IndexDir Schema) :=
  match dir.index with
  | none => .ok ([], { dir with index := some (builds schemaVersion, []) })
  | some (schema, docs) =>
      if schema = builds schemaVersion then .ok (docs, dir)
      else .error (.tantivy
        "Schema error: 'An index exists but the schema does not match.'")

/-- `SearchReader::open`: the documents that can be searched, and the directory it leaves. -/
def openReader (dir : IndexDir Schema) : Except SearchError (List Document × IndexDir Schema) := do
  let onDiskVersion := (← readSchemaVersion serde metaPath dir).getD schemaVersion
  if onDiskVersion ≠ schemaVersion then
    .error (.schemaVersionMismatch onDiskVersion schemaVersion)
  else do
    let (docs, opened) ← openIndexParts builds dir
    pure (docs, if opened.sidecar.isSome then opened else writeSchemaVersion serde opened)

/-- What a migration returns, the directory it leaves, and the events it fires. -/
structure Migrated (Schema : Type) where
  result : Except SearchError Nat
  dir : IndexDir Schema
  events : List ReindexEvent

variable (lib : IndexLib) (env : Env) (faults : Faults) (db : Catalog)

/-- The rebuild of the index that is there, and the version behind it. -/
def rebuildIn (prevVersion : Nat) (docs : List Document) (opened : IndexDir Schema) :
    Migrated Schema :=
  let rebuilt := reindexWithProgress lib env faults db ⟨docs, []⟩
  -- what is still queued is lost with the writer
  let left := { opened with index := some (builds schemaVersion, rebuilt.writer.committed) }
  match rebuilt.result with
  | .error e => ⟨.error e, left, rebuilt.events⟩
  | .ok _ => ⟨.ok prevVersion, writeSchemaVersion serde left, rebuilt.events⟩

def migrateToWithProgress (dir : IndexDir Schema) : Migrated Schema :=
  match readSchemaVersion serde metaPath dir with
  | .error e => ⟨.error e, dir, []⟩
  | .ok version =>
      let prevVersion := version.getD 1
      if schemaVersion < prevVersion then
        ⟨.error (.schemaVersionMismatch prevVersion schemaVersion), dir, []⟩
      else if prevVersion = schemaVersion then ⟨.ok prevVersion, dir, [.indexing 0 0]⟩
      else
        match openIndexParts builds dir with
        | .error e => ⟨.error e, dir, []⟩
        | .ok (docs, opened) => rebuildIn builds serde lib env faults db prevVersion docs opened

/-- `migrate_to`: the same, without events. -/
def migrateTo (dir : IndexDir Schema) : Except SearchError Nat × IndexDir Schema :=
  let migrated := migrateToWithProgress builds serde metaPath lib env faults db dir
  (migrated.result, migrated.dir)

end Opening

section Repairing

variable {Schema : Type} [DecidableEq Schema] (builds : Nat → Schema) (serde : SerdeText)
  (metaPath : String)

/-- The schema of a version before this one. -/
def Older (schema : Schema) : Prop :=
  schema ≠ builds schemaVersion ∧ ∃ v < schemaVersion, builds v = schema

/-- The version that the file declares. -/
def declaredVersion (dir : IndexDir Schema) : Option Nat :=
  dir.sidecar.bind fun raw => (serde.parse raw).toOption.bind declared?

/-- What opening and migrating promise of a directory. -/
structure Repairs (dir : IndexDir Schema) : Prop where
  /-- Only an index of this build is opened. -/
  opens_own : ∀ opened, openReader builds serde metaPath dir = .ok opened →
    ∀ schema docs, dir.index = some (schema, docs) → schema = builds schemaVersion
  /-- A newer version is refused, and nothing is touched. -/
  refuses_newer : ∀ v, declaredVersion serde dir = some v → schemaVersion < v →
    ∀ lib env faults db,
      (∃ found, (migrateTo builds serde metaPath lib env faults db dir).1 =
        .error (.schemaVersionMismatch found schemaVersion)) ∧
      (migrateTo builds serde metaPath lib env faults db dir).2 = dir
  /-- What was migrated opens. -/
  opens_after : ∀ lib env faults db prev,
    (migrateTo builds serde metaPath lib env faults db dir).1 = .ok prev →
      ∃ opened, openReader builds serde metaPath
        (migrateTo builds serde metaPath lib env faults db dir).2 = .ok opened
  /-- The older index is not what makes a migration fail. -/
  not_stopped : ∀ schema docs, dir.index = some (schema, docs) → Older builds schema →
    ∀ lib env faults db prev,
      (migrateTo builds serde metaPath lib env faults db { dir with index := none }).1 = .ok prev →
        ∃ prev', (migrateTo builds serde metaPath lib env faults db dir).1 = .ok prev'

/-- The version that is read is newer than this build's; or the one that is declared is not,
    and the index is of this build's schema, or at least of no older one while the version
    is older. -/
def Repairable (dir : IndexDir Schema) : Prop :=
  ∀ version, readSchemaVersion serde metaPath dir = .ok version →
    schemaVersion < version.getD 1 ∨
      ((∀ v, declaredVersion serde dir = some v → v ≤ schemaVersion) ∧
        ∀ schema docs, dir.index = some (schema, docs) → schema = builds schemaVersion ∨
          (version.getD 1 < schemaVersion ∧ ¬ Older builds schema))

end Repairing

section Lemmas

variable {Schema : Type} [DecidableEq Schema] {builds : Nat → Schema} {serde : SerdeText}
  {metaPath : String} {lib : IndexLib} {env : Env} {faults : Faults} {db : Catalog}
  {dir : IndexDir Schema}

/-! ## What is read and what is opened -/

omit [DecidableEq Schema] in
/-- What was written is read back. -/
theorem readSchemaVersion_written (dir : IndexDir Schema) :
    readSchemaVersion serde metaPath (writeSchemaVersion serde dir) = .ok (some schemaVersion) := by
  simp only [readSchemaVersion, writeSchemaVersion, serde.parse_toText]
  rfl

/-- An index of this build's schema is opened, and none is created. -/
theorem openIndexParts_eq_ok {opened : List Document × IndexDir Schema} :
    openIndexParts builds dir = .ok opened ↔
      (dir.index = none ∧ opened = ([], { dir with index := some (builds schemaVersion, []) })) ∨
        ∃ docs, dir.index = some (builds schemaVersion, docs) ∧ opened = (docs, dir) := by
  rw [openIndexParts]
  cases hindex : dir.index with
  | none =>
      simp only [Except.ok.injEq, true_and, reduceCtorEq, false_and, exists_false, or_false]
      exact eq_comm
  | some stored =>
      obtain ⟨schema, docs⟩ := stored
      by_cases hschema : schema = builds schemaVersion
      · simp only [if_pos hschema, Except.ok.injEq, reduceCtorEq, false_and, false_or,
          Option.some.injEq, Prod.mk.injEq]
        constructor
        · rintro rfl
          exact ⟨docs, ⟨hschema, rfl⟩, rfl⟩
        · rintro ⟨docs', ⟨_, rfl⟩, rfl⟩
          rfl
      · simp only [if_neg hschema, reduceCtorEq, false_and, false_or, Option.some.injEq,
          Prod.mk.injEq, false_iff]
        rintro ⟨docs', ⟨rfl, _⟩, _⟩
        exact hschema rfl

/-- A directory of this build: the version, if there is one, and the index, if there is one. -/
theorem openReader_ok_iff :
    (∃ opened, openReader builds serde metaPath dir = .ok opened) ↔
      (∃ version, readSchemaVersion serde metaPath dir = .ok version ∧
        version.getD schemaVersion = schemaVersion) ∧
      ∀ schema docs, dir.index = some (schema, docs) → schema = builds schemaVersion := by
  -- the index on its own, then the version before it
  have hparts : (∃ opened, openIndexParts builds dir = .ok opened) ↔
      ∀ schema docs, dir.index = some (schema, docs) → schema = builds schemaVersion := by
    simp only [openIndexParts_eq_ok]
    cases hindex : dir.index with
    | none => exact iff_of_true ⟨_, Or.inl ⟨rfl, rfl⟩⟩ fun _ _ h => by cases h
    | some stored =>
        obtain ⟨schema, docs⟩ := stored
        constructor
        · rintro ⟨opened, ⟨h, _⟩ | ⟨docs', h, _⟩⟩ schema' docs'' h'
          · cases h
          · cases h
            cases h'
            rfl
        · intro h
          have hschema := h schema docs rfl
          exact ⟨(docs, dir), Or.inr ⟨docs, by rw [hschema], rfl⟩⟩
  rw [← hparts]
  rw [openReader]
  cases hread : readSchemaVersion serde metaPath dir with
  | error e =>
      constructor
      · rintro ⟨opened, h⟩
        cases h
      · rintro ⟨⟨version, h, _⟩, _⟩
        cases h
  | ok version =>
      simp only [bind, Except.bind, Except.ok.injEq, exists_eq_left']
      by_cases hversion : version.getD schemaVersion = schemaVersion
      · rw [if_neg (not_not.2 hversion)]
        cases openIndexParts builds dir with
        | error e =>
            constructor
            · rintro ⟨opened, h⟩
              cases h
            · rintro ⟨_, opened, h⟩
              cases h
        | ok opened => exact iff_of_true ⟨_, rfl⟩ ⟨hversion, opened, rfl⟩
      · rw [if_pos hversion]
        constructor
        · rintro ⟨opened, h⟩
          cases h
        · rintro ⟨h, _⟩
          exact absurd h hversion

omit [DecidableEq Schema] in
/-- A file that declares a version is read. -/
theorem readSchemaVersion_of_declared {v : Nat} (h : declaredVersion serde dir = some v) :
    ∃ version, readSchemaVersion serde metaPath dir = .ok version := by
  rw [declaredVersion] at h
  rw [readSchemaVersion]
  cases hsidecar : dir.sidecar with
  | none => exact ⟨none, rfl⟩
  | some raw =>
      cases hparse : serde.parse raw with
      | error e =>
          rw [hsidecar] at h
          simp only [Option.bind_some, hparse] at h
          cases h
      | ok parsed =>
          simp only [hparse]
          exact ⟨_, rfl⟩

/-! ## What a migration does -/

theorem migrateTo_of_error {e : SearchError} (h : readSchemaVersion serde metaPath dir = .error e) :
    migrateTo builds serde metaPath lib env faults db dir = (.error e, dir) := by
  simp only [migrateTo, migrateToWithProgress, h]

theorem migrateTo_of_newer {version : Option Nat}
    (h : readSchemaVersion serde metaPath dir = .ok version)
    (hnewer : schemaVersion < version.getD 1) :
    migrateTo builds serde metaPath lib env faults db dir =
      (.error (.schemaVersionMismatch (version.getD 1) schemaVersion), dir) := by
  simp only [migrateTo, migrateToWithProgress, h, if_pos hnewer]

theorem migrateTo_of_current {version : Option Nat}
    (h : readSchemaVersion serde metaPath dir = .ok version)
    (hcurrent : version.getD 1 = schemaVersion) :
    migrateTo builds serde metaPath lib env faults db dir = (.ok schemaVersion, dir) := by
  simp only [migrateTo, migrateToWithProgress, h, hcurrent, lt_irrefl, if_false, if_true]

theorem migrateTo_of_older {version : Option Nat}
    (h : readSchemaVersion serde metaPath dir = .ok version)
    (holder : version.getD 1 < schemaVersion) :
    (∃ message, migrateTo builds serde metaPath lib env faults db dir =
        (.error (.tantivy message), dir) ∧
      ∃ schema docs, dir.index = some (schema, docs) ∧ schema ≠ builds schemaVersion) ∨
    ∃ docs opened, openIndexParts builds dir = .ok (docs, opened) ∧
      migrateTo builds serde metaPath lib env faults db dir =
        ((rebuildIn builds serde lib env faults db (version.getD 1) docs opened).result,
          (rebuildIn builds serde lib env faults db (version.getD 1) docs opened).dir) := by
  simp only [migrateTo, migrateToWithProgress, h, if_neg (Nat.lt_asymm holder),
    if_neg (Nat.ne_of_lt holder)]
  cases hparts : openIndexParts builds dir with
  | ok opened => exact Or.inr ⟨opened.1, opened.2, rfl, rfl⟩
  | error e =>
      refine Or.inl ?_
      rw [openIndexParts] at hparts
      split at hparts
      · cases hparts
      · next schema docs hindex =>
          split at hparts
          · cases hparts
          · next hschema =>
              cases hparts
              exact ⟨_, rfl, schema, docs, hindex, hschema⟩

/-- A rebuild that nothing stops. -/
theorem result_of_noFaults (c : Catalog) (w : IndexWriter) :
    (reindexWithProgress lib env .none c w).result = .ok () := by
  have hadded := addAll_noFaults
    (rebuiltDocuments lib env (loadOrder.foldl (loadTable c) .empty)).length
    (rebuiltDocuments lib env (loadOrder.foldl (loadTable c) .empty)) 0
    (w.deleteAllDocuments.commit hasTerm)
  rw [reindexWithProgress, loadTables_noFaults]
  simp only [refill]
  rw [hadded.1]

omit [DecidableEq Schema] in
/-- Where a rebuild succeeds, the index is of this build's schema, and so is the version. -/
theorem rebuildIn_eq_ok {prevVersion prev : Nat} {docs : List Document} {opened : IndexDir Schema}
    (h : (rebuildIn builds serde lib env faults db prevVersion docs opened).result = .ok prev) :
    ∃ rebuilt, (rebuildIn builds serde lib env faults db prevVersion docs opened).dir =
      writeSchemaVersion serde { opened with index := some (builds schemaVersion, rebuilt) } := by
  unfold rebuildIn at h ⊢
  cases hresult : (reindexWithProgress lib env faults db ⟨docs, []⟩).result with
  | error e =>
      simp only [hresult] at h
      cases h
  | ok _ =>
      simp only [hresult]
      exact ⟨_, rfl⟩

omit [DecidableEq Schema] in
theorem rebuildIn_noFaults (prevVersion : Nat) (docs : List Document) (opened : IndexDir Schema) :
    (rebuildIn builds serde lib env .none db prevVersion docs opened).result = .ok prevVersion := by
  rw [rebuildIn]
  simp only [result_of_noFaults]

/-- The index of another schema, and an older version: the migration fails on the index. -/
theorem not_ok_of_other {version : Option Nat} {schema : Schema} {docs : List Document}
    (h : readSchemaVersion serde metaPath dir = .ok version)
    (holder : version.getD 1 < schemaVersion) (hindex : dir.index = some (schema, docs))
    (hschema : schema ≠ builds schemaVersion) (prev : Nat) :
    (migrateTo builds serde metaPath lib env faults db dir).1 ≠ .ok prev := by
  rcases @migrateTo_of_older _ _ builds serde metaPath lib env faults db dir _ h holder with
    ⟨message, heq, _⟩ | ⟨docs', opened, hparts, _⟩
  · rw [heq]
    rintro ⟨⟩
  · rcases openIndexParts_eq_ok.1 hparts with ⟨hnone, _⟩ | ⟨docs'', hown, _⟩
    · rw [hindex] at hnone
      cases hnone
    · rw [hindex] at hown
      cases hown
      exact absurd rfl hschema

/-- Of a directory that needs no repair by hand, a version that is declared is at most this
    build's, unless the one that is read is newer. -/
theorem declared_le_of_repairs (h : Repairs builds serde metaPath dir) {version : Option Nat}
    (hread : readSchemaVersion serde metaPath dir = .ok version)
    (hnot : ¬ schemaVersion < version.getD 1) {v : Nat}
    (hdeclared : declaredVersion serde dir = some v) : v ≤ schemaVersion := by
  by_contra hnewer
  obtain ⟨⟨found, hrefused⟩, _⟩ := h.refuses_newer v hdeclared (Nat.lt_of_not_le hnewer) plainLib
    Env.reference .none .empty
  rcases Nat.lt_or_eq_of_le (Nat.le_of_not_lt hnot) with holder | hcurrent
  · rcases @migrateTo_of_older _ _ builds serde metaPath plainLib Env.reference .none .empty dir _
      hread holder with ⟨message, heq, _⟩ | ⟨docs, opened, _, heq⟩
    · rw [heq] at hrefused
      cases hrefused
    · rw [heq, rebuildIn_noFaults] at hrefused
      cases hrefused
  · rw [migrateTo_of_current hread hcurrent] at hrefused
    cases hrefused

theorem repairable_of_repairs (h : Repairs builds serde metaPath dir) :
    Repairable builds serde metaPath dir := by
  intro version hread
  by_cases hnot : schemaVersion < version.getD 1
  · exact Or.inl hnot
  refine Or.inr ⟨fun v hv => declared_le_of_repairs h hread hnot hv, fun schema docs hindex => ?_⟩
  by_cases hschema : schema = builds schemaVersion
  · exact Or.inl hschema
  rcases Nat.lt_or_eq_of_le (Nat.le_of_not_lt hnot) with holder | hcurrent
  · -- without the index the migration goes through, with it it does not
    refine Or.inr ⟨holder, fun hold => ?_⟩
    have hwithout : (migrateTo builds serde metaPath plainLib Env.reference .none .empty
        { dir with index := none }).1 = .ok (version.getD 1) := by
      rcases @migrateTo_of_older _ _ builds serde metaPath plainLib Env.reference .none .empty
        { dir with index := none } _ hread holder with ⟨_, _, _, _, hnone, _⟩ | ⟨_, _, _, heq⟩
      · cases hnone
      · rw [heq, rebuildIn_noFaults]
    obtain ⟨prev, hprev⟩ := h.not_stopped schema docs hindex hold _ _ _ _ _ hwithout
    exact not_ok_of_other hread holder hindex hschema prev hprev
  · -- the migration has nothing to do, and the directory does not open
    have hdone := @migrateTo_of_current _ _ builds serde metaPath plainLib Env.reference .none
      .empty dir _ hread hcurrent
    obtain ⟨opened, hopened⟩ := h.opens_after plainLib Env.reference .none .empty schemaVersion
      (by rw [hdone])
    rw [hdone] at hopened
    exact absurd ((openReader_ok_iff.1 ⟨opened, hopened⟩).2 schema docs hindex) hschema

theorem repairs_of_repairable (h : Repairable builds serde metaPath dir) :
    Repairs builds serde metaPath dir := by
  constructor
  case opens_own =>
    intro opened hopened
    exact (openReader_ok_iff.1 ⟨opened, hopened⟩).2
  case refuses_newer =>
    intro v hv hnewer lib env faults db
    obtain ⟨version, hread⟩ : ∃ version, readSchemaVersion serde metaPath dir = .ok version :=
      readSchemaVersion_of_declared hv
    rcases h version hread with hlt | ⟨hle, _⟩
    · rw [migrateTo_of_newer hread hlt]
      exact ⟨⟨_, rfl⟩, rfl⟩
    · exact absurd (hle v hv) (Nat.not_le.2 hnewer)
  case opens_after =>
    intro lib env faults db prev hok
    cases hread : readSchemaVersion serde metaPath dir with
    | error e =>
        rw [migrateTo_of_error hread] at hok
        cases hok
    | ok version =>
        rcases Nat.lt_trichotomy (version.getD 1) schemaVersion with holder | hcurrent | hnewer
        · -- an older index is rebuilt, which writes the version and the schema of this build
          rcases @migrateTo_of_older _ _ builds serde metaPath lib env faults db dir _ hread holder
            with ⟨_, heq, _⟩ | ⟨docs, opened, _, heq⟩
          · rw [heq] at hok
            cases hok
          · rw [heq] at hok ⊢
            obtain ⟨rebuilt, hdir⟩ := rebuildIn_eq_ok hok
            refine openReader_ok_iff.2 ⟨⟨some schemaVersion, ?_, rfl⟩, fun schema docs hindex => ?_⟩
            · rw [hdir]
              exact readSchemaVersion_written _
            · rw [hdir] at hindex
              cases hindex
              rfl
        · -- nothing is written here, so what opens is what was there
          rw [migrateTo_of_current hread hcurrent]
          refine openReader_ok_iff.2 ⟨⟨version, hread, ?_⟩, fun schema docs hindex => ?_⟩
          · cases version with
            | none => rfl
            | some v => exact hcurrent
          · rcases h version hread with hlt | ⟨_, hindexed⟩
            · exact absurd hlt (hcurrent ▸ Nat.lt_irrefl _)
            · rcases hindexed schema docs hindex with hown | ⟨hlt, _⟩
              · exact hown
              · exact absurd hlt (hcurrent ▸ Nat.lt_irrefl _)
        · rw [migrateTo_of_newer hread hnewer] at hok
          cases hok
  case not_stopped =>
    intro schema docs hindex hold lib env faults db prev hok
    cases hread : readSchemaVersion serde metaPath dir with
    | error e =>
        have hread' : readSchemaVersion serde metaPath
            ({ dir with index := none } : IndexDir Schema) = .error e := hread
        rw [migrateTo_of_error hread'] at hok
        cases hok
    | ok version =>
        rcases Nat.lt_trichotomy (version.getD 1) schemaVersion with holder | hcurrent | hnewer
        · -- the index is of this build's schema, and what is in it does not matter
          rcases h version hread with hlt | ⟨_, hindexed⟩
          · exact absurd hlt (Nat.lt_asymm holder)
          rcases hindexed schema docs hindex with hown | ⟨_, hyoung⟩
          · exact absurd hown hold.1
          · exact absurd hold hyoung
        · exact ⟨_, congrArg Prod.fst (migrateTo_of_current hread hcurrent)⟩
        · have hread' : readSchemaVersion serde metaPath
              ({ dir with index := none } : IndexDir Schema) = .ok version := hread
          rw [migrateTo_of_newer hread' hnewer] at hok
          cases hok

end Lemmas

/-- **OPENING AND MIGRATING KEEP THEIR PROMISES** exactly if the version is newer, or is not
    cut to an older one while the index is of this build's schema, or of no older one. -/
theorem repairs_iff {Schema : Type} [DecidableEq Schema] (builds : Nat → Schema) (serde : SerdeText)
    (metaPath : String) (dir : IndexDir Schema) :
    Repairs builds serde metaPath dir ↔ Repairable builds serde metaPath dir :=
  ⟨repairable_of_repairs, repairs_of_repairable⟩

/-! ## An index of the version before -/

def plainSerde : SerdeText where
  parse raw :=
    match Nested.readValue recursionLimit (raw.toList.filter (· != '\n')) with
    | some (j, []) => .ok j
    | _ => .error "expected value"
  toText j := String.ofList (Flat.renderValue j)
  parse_toText := by rfl

/-- Version 3 as it was left by its build. -/
def versionThree : IndexDir Nat where
  index := some (3, [])
  sidecar := some "\x7b\"schema_version\":3\x7d\n"

/-- It is not migrated. -/
theorem not_repairs_versionThree :
    ¬ Repairs id plainSerde "index/search_schema_version.json" versionThree := by
  intro h
  obtain ⟨prev, hprev⟩ := h.not_stopped 3 [] rfl ⟨by decide, 3, by decide, rfl⟩ plainLib
    Env.reference .none .empty 3 (by rfl)
  have hfails : (migrateTo id plainSerde "index/search_schema_version.json" plainLib Env.reference
      .none .empty versionThree).1 = .error (.tantivy
        "Schema error: 'An index exists but the schema does not match.'") := by rfl
  rw [hfails] at hprev
  cases hprev

end Migration
