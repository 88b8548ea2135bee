import Mathlib.Data.List.TakeWhile
import Livtet.InStep
import Livtet.Lib.FileTrees
import Livtet.Lib.Pieces
import Livtet.Lib.Runs

/-! # The covers of editions

    A cover is kept in three trees: an entry under the hash of its key, a marker with the key
    for its edition, and a permanent copy under the edition and the extension. The extension
    is part of the key, so that covers of one edition with different extensions stand side
    by side until they are all forgotten. What is read is the copy of the marker that the
    file system lists first.

    So the newest cover is read, in whatever order the markers are listed, exactly if the
    last cover of each extension is the newest one (`readsNewest_iff`). -/

namespace Covers

open SyncStore (Env)
open SyncPairing (DbId trim isWhitespace isWhitespace_of_isAlphanum trim_eq_self trim_of_alphanum
  isAlphanum_iff toLower_cases)
open Library (LivtetError sampleId)
open Maps FileTrees

abbrev Bytes := List UInt8

/-! ## Keys -/

structure CacheKey where
  provider : String
  identifierType : String
  identifierValue : String
  size : String
  ext : String
deriving DecidableEq

def CacheKey.contentKey (k : CacheKey) : String :=
  k.provider ++ "::" ++ k.identifierType ++ "::" ++ k.identifierValue ++ "::" ++ k.size ++ "::" ++
    k.ext

/-- The hash of a key, which separates keys, and the text of the error of a missing file. -/
structure Platform where
  contentHash : String → String
  separates : ∀ a b, contentHash a = contentHash b → a = b
  missing : String

/-! ## The storage -/

/-- The trees of files below a cache root. -/
structure FileCoverStorage where
  entries : Map String Bytes
  markers : FileTree String
  permanent : FileTree Bytes

def FileCoverStorage.empty : FileCoverStorage := ⟨∅, ∅, ∅⟩

inductive CoverError
  | cache (message : String)
deriving DecidableEq, Repr

def CoverError.display : CoverError → String
  | .cache message => "Cache key error: " ++ message

structure CachedCover where
  contentKey : String
  editionId : DbId
  blurhash : Option String
  dominantColor : Option String
  size : Option Nat

/-- A permanent copy: the directory of its edition, and the name of the file. -/
structure PermanentPath where
  edition : String
  file : String
deriving DecidableEq

namespace FileCoverStorage

variable (env : Env) (p : Platform)

/-- The entry is written before the edition is read from the key. -/
def store (key : CacheKey) (bytes : Bytes) (c : FileCoverStorage) :
    Except CoverError CachedCover × FileCoverStorage :=
  let contentKey := key.contentKey
  let c := { c with entries := c.entries.insert (p.contentHash contentKey) bytes }
  match (env.ulidParse key.identifierValue).bind DbId.ofBytes? with
  | none => (.error (.cache ("invalid edition_id in key: " ++ key.identifierValue)), c)
  | some editionId =>
      (.ok ⟨contentKey, editionId, none, none, some bytes.length⟩,
        { c with
          markers := write c.markers (editionId.text env) (p.contentHash contentKey) contentKey })

/-- The name of a permanent copy. -/
def sanitize (ext : String) : String :=
  String.ofList ((ext.toList.dropWhile fun c => c == '.').filter fun c =>
    !List.contains ['/', '\\', ':', '*', '?', '"', '<', '>', '|'] c)

def copyToPermanent (key : CacheKey) (editionId : DbId) (ext : String) (c : FileCoverStorage) :
    Except CoverError Unit × FileCoverStorage :=
  match c.entries.lookup (p.contentHash key.contentKey) with
  | none => (.error (.cache ("cached entry not found: " ++ p.missing)), c)
  | some bytes =>
      let c := { c with permanent := createDir c.permanent (editionId.text env) }
      if sanitize ext = "" then (.error (.cache "empty extension after sanitization"), c)
      else (.ok (), { c with
        permanent := write c.permanent (editionId.text env) ("cover." ++ sanitize ext) bytes })

/-- The marker of a cover that is listed, unless it is blank. -/
def cachedCover (inventory : DbId → Option (Option String × Option String)) (editionId : DbId)
    (c : FileCoverStorage) (marker : Sigma fun _ : String => String) : Option CachedCover :=
  let contentKey := trim marker.2
  if contentKey = "" then none
  else
    let hash := String.ofList (marker.1.toList.takeWhile fun c => c != '.')
    let (blurhash, dominantColor) := (inventory editionId).getD (none, none)
    some ⟨contentKey, editionId, blurhash, dominantColor,
      (c.entries.lookup hash).map fun bytes => bytes.length⟩

def listCached (listing : Listing String)
    (inventory : DbId → Option (Option String × Option String)) (editionId : DbId)
    (c : FileCoverStorage) : List CachedCover :=
  match files c.markers (editionId.text env) with
  | none => []
  | some entries => (listing.order entries).filterMap (cachedCover inventory editionId c)

def permanentPath (editionId : DbId) (ext : String) : Except CoverError PermanentPath :=
  if sanitize ext = "" then .error (.cache "empty extension after sanitization")
  else .ok ⟨editionId.text env, "cover." ++ sanitize ext⟩

/-- The entries stay. -/
def remove (editionId : DbId) (c : FileCoverStorage) : FileCoverStorage := { c with
  permanent := removeDir c.permanent (editionId.text env)
  markers := removeDir c.markers (editionId.text env) }

/-- What is in the file. -/
def content (c : FileCoverStorage) (path : PermanentPath) : Option Bytes :=
  read c.permanent path.edition path.file

end FileCoverStorage

/-! ## The calls of the store -/

def mapCoverError (error : CoverError) : LivtetError :=
  .invalidInput ("cover cache: " ++ error.display)

/-- A storage is opened at a root that is not blank. -/
def storageAt (cacheRoot : String) : Except LivtetError Unit :=
  if trim cacheRoot = "" then .error (.invalidInput "cover cache root must not be empty")
  else .ok ()

def extensionOf (contentKey : String) : Option String :=
  let ext := trim (String.ofList (Pieces.last "::".toList contentKey.toList))
  if ext = "" then none else some ext

/-- The key that an entry was stored with. -/
def keyFromContentKey (env : Env) (contentKey : String) (editionId : DbId) :
    Except LivtetError CacheKey :=
  match (Pieces.split "::".toList contentKey.toList).map String.ofList with
  | [provider, identifierType, _, size, ext] =>
      .ok ⟨provider, identifierType, editionId.text env, size, ext⟩
  | _ => .error (.invalidInput ("malformed cover content key: " ++ contentKey))

def cleanExtension (ext : String) : Except LivtetError String :=
  let cleaned := (((trim ext).toList.dropWhile fun c => c == '.').filter Char.isAlphanum)
  if cleaned.isEmpty then .error (.invalidInput "cover extension must not be empty")
  else .ok (String.ofList (cleaned.map Char.toLower))

/-- The key of an edition's cover. -/
def coverKey (env : Env) (editionId : DbId) (ext : String) : CacheKey where
  provider := "catalog"
  identifierType := "edition"
  identifierValue := editionId.text env
  size := "orig"
  ext := ext

section Calls

variable (env : Env) (p : Platform)

def storeCover (editionId : DbId) (cacheRoot ext : String) (bytes : Bytes) (c : FileCoverStorage) :
    Except LivtetError PermanentPath × FileCoverStorage :=
  if bytes.isEmpty then (.error (.invalidInput "cover bytes are empty"), c)
  else
    match cleanExtension ext with
    | .error e => (.error e, c)
    | .ok ext =>
        match storageAt cacheRoot with
        | .error e => (.error e, c)
        | .ok () =>
            let key := coverKey env editionId ext
            match c.store env p key bytes with
            | (.error e, c) => (.error (mapCoverError e), c)
            | (.ok _, c) =>
                match c.copyToPermanent env p key editionId ext with
                | (.error e, c) => (.error (mapCoverError e), c)
                | (.ok (), c) =>
                    ((FileCoverStorage.permanentPath env editionId ext).mapError mapCoverError, c)

def forgetCover (editionId : DbId) (cacheRoot : String) (c : FileCoverStorage) :
    Except LivtetError Unit × FileCoverStorage :=
  match storageAt cacheRoot with
  | .error e => (.error e, c)
  | .ok () => (.ok (), c.remove env editionId)

/-- A copy that is lost is made again from the entry. -/
def rebuildCopy (editionId : DbId) (contentKey ext : String) (c : FileCoverStorage) :
    Except LivtetError (Option PermanentPath) × FileCoverStorage :=
  match keyFromContentKey env contentKey editionId with
  | .error e => (.error e, c)
  | .ok key =>
      match c.copyToPermanent env p key editionId ext with
      | (.error e, c) => (.error (mapCoverError e), c)
      | (.ok (), c) =>
          (((FileCoverStorage.permanentPath env editionId ext).mapError mapCoverError).map some, c)

def coverCachePath (listing : Listing String)
    (inventory : DbId → Option (Option String × Option String)) (editionId : DbId)
    (cacheRoot : String) (c : FileCoverStorage) :
    Except LivtetError (Option PermanentPath) × FileCoverStorage :=
  match storageAt cacheRoot with
  | .error e => (.error e, c)
  | .ok () =>
      match (c.listCached env listing inventory editionId).head? with
      | none => (.ok none, c)
      | some entry =>
          match extensionOf entry.contentKey with
          | none => (.ok none, c)
          | some ext =>
              match FileCoverStorage.permanentPath env editionId ext with
              | .error e => (.error (mapCoverError e), c)
              | .ok path =>
                  if (c.content path).isSome then (.ok (some path), c)
                  else rebuildCopy env p editionId entry.contentKey ext c

end Calls

/-! ## What should be read -/

inductive Action
  | store (editionId : DbId) (ext : String) (bytes : Bytes)
  | forget (editionId : DbId)

/-- The newest cover of each edition, and the newest with each extension, since the edition
    was last forgotten. -/
@[ext]
structure Kept where
  newest : DbId → Option Bytes
  latest : DbId → String → Option Bytes

def Kept.nothing : Kept := ⟨fun _ => none, fun _ _ => none⟩

/-- The extension a cover is stored with, if it is not refused. -/
def accepted (ext : String) (bytes : Bytes) : Option String :=
  if bytes.isEmpty then none else (cleanExtension ext).toOption

def Kept.stored (w : Kept) (e : DbId) (x : String) (bytes : Bytes) : Kept where
  newest := Function.update w.newest e (some bytes)
  latest := Function.update w.latest e (Function.update (w.latest e) x (some bytes))

def Kept.forgotten (w : Kept) (e : DbId) : Kept where
  newest := Function.update w.newest e none
  latest := Function.update w.latest e fun _ => none

def Kept.after (w : Kept) : Action → Kept
  | .store e ext bytes => (accepted ext bytes).elim w fun x => w.stored e x bytes
  | .forget e => w.forgotten e

section Runs

variable (env : Env) (p : Platform) (root : String)

/-- A call at the cache root. -/
def step (c : FileCoverStorage) : Action → FileCoverStorage
  | .store e ext bytes => (storeCover env p e root ext bytes c).2
  | .forget e => (forgetCover env e root c).2

/-- In whatever order the markers are listed, the newest cover of the edition is read, or
    none if it has none. -/
def ReadsNewest (c : FileCoverStorage) (w : Kept) (e : DbId) : Prop :=
  ∀ listing inventory, ∃ path c', coverCachePath env p listing inventory e root c = (.ok path, c') ∧
    path.map c'.content = (w.newest e).map some

end Runs

/-! ## Texts of keys -/

/-- An extension as it is stored: letters and digits, and not none. -/
structure Clean (x : String) : Prop where
  nonempty : x ≠ ""
  alphanum : ∀ c ∈ x.toList, c.isAlphanum = true

theorem isAlphanum_toLower {c : Char} (h : c.isAlphanum = true) :
    c.toLower.isAlphanum = true := by
  rcases toLower_cases c with hsame | ⟨hlow, hhigh, hshift⟩
  · rw [hsame]
    exact h
  · rw [isAlphanum_iff, hshift]
    omega

theorem clean_of_cleanExtension {ext x : String} (h : cleanExtension ext = .ok x) : Clean x := by
  unfold cleanExtension at h
  dsimp only at h
  split at h
  · cases h
  · rename_i hne
    cases Except.ok.inj h
    refine ⟨fun hempty => hne ?_, fun c hc => ?_⟩
    · have hnil := congrArg String.toList hempty
      rw [String.toList_ofList] at hnil
      exact List.isEmpty_iff.2 (List.map_eq_nil_iff.1 hnil)
    · rw [String.toList_ofList] at hc
      obtain ⟨d, hd, rfl⟩ := List.mem_map.1 hc
      exact isAlphanum_toLower (List.mem_filter.1 hd).2

theorem clean_of_accepted {ext x : String} {bytes : Bytes} (h : accepted ext bytes = some x) :
    bytes.isEmpty = false ∧ cleanExtension ext = .ok x ∧ Clean x := by
  rw [accepted] at h
  split at h
  · cases h
  · rename_i hbytes
    cases hext : cleanExtension ext with
    | error e =>
        rw [hext] at h
        cases h
    | ok y =>
        rw [hext] at h
        cases Option.some.inj h
        exact ⟨Bool.not_eq_true _ ▸ hbytes, rfl, clean_of_cleanExtension hext⟩

section Texts

variable {env : Env} {e e' : DbId} {x x' : String}

theorem sanitize_of_clean (hx : Clean x) : FileCoverStorage.sanitize x = x := by
  have hne : ∀ c ∈ x.toList, ∀ d : Char, d.isAlphanum = false → c ≠ d := by
    rintro c hc d hd rfl
    rw [hx.alphanum c hc] at hd
    cases hd
  have hdots : x.toList.dropWhile (fun c => c == '.') = x.toList := by
    refine List.dropWhile_eq_self_iff.2 fun hlength hdot => ?_
    exact hne _ (List.getElem_mem hlength) '.' rfl (eq_of_beq hdot)
  rw [FileCoverStorage.sanitize, hdots, List.filter_eq_self.2, String.ofList_toList]
  intro c hc
  rw [Bool.not_eq_true', List.contains_eq_mem, decide_eq_false_iff_not]
  simp only [List.mem_cons, List.not_mem_nil, or_false, not_or]
  exact ⟨hne c hc _ rfl, hne c hc _ rfl, hne c hc _ rfl, hne c hc _ rfl, hne c hc _ rfl,
    hne c hc _ rfl, hne c hc _ rfl, hne c hc _ rfl, hne c hc _ rfl⟩

/-- The text of the key of a cover. -/
def keyText (env : Env) (e : DbId) (x : String) : String := (coverKey env e x).contentKey

theorem toList_keyText : (keyText env e x).toList =
    "catalog::edition::".toList ++ (e.text env).toList ++ "::orig".toList ++
      ("::".toList ++ x.toList) := by
  show ("catalog" ++ "::" ++ "edition" ++ "::" ++ e.text env ++ "::" ++ "orig" ++ "::" ++
    x).toList = _
  simp only [String.toList_append, List.append_assoc]
  rfl

theorem extensionOf_keyText (hx : Clean x) : extensionOf (keyText env e x) = some x := by
  have hcolon : ∀ c ∈ "::".toList, c ∉ x.toList := by
    intro c hc hmem
    have halphanum := hx.alphanum c hmem
    obtain rfl : c = ':' := by simpa using hc
    cases halphanum
  have hlast : Pieces.last "::".toList (keyText env e x).toList = x.toList := by
    rw [toList_keyText]
    exact Pieces.last_append (by decide) hcolon _
  have htrim : trim x = x := trim_of_alphanum hx.alphanum
  unfold extensionOf
  dsimp only
  rw [hlast, String.ofList_toList, htrim, if_neg hx.nonempty]

theorem trim_keyText (hx : Clean x) : trim (keyText env e x) = keyText env e x := by
  refine trim_eq_self fun c hc => ?_
  have hfixed : ∀ d ∈ "catalog::edition::".toList ++ "::orig".toList ++ "::".toList,
      isWhitespace d = false := by
    have hall : (("catalog::edition::".toList ++ "::orig".toList ++ "::".toList).all
        fun d => !isWhitespace d) = true := by decide
    exact fun d hd => Bool.not_eq_true' _ ▸ List.all_eq_true.1 hall d hd
  simp only [List.mem_append] at hfixed
  rw [toList_keyText] at hc
  simp only [List.mem_append] at hc
  rcases hc with ((hc | hc) | hc) | hc | hc
  · exact hfixed c (Or.inl (Or.inl hc))
  · exact isWhitespace_of_isAlphanum (env.ulidText_alphanum e.val c hc)
  · exact hfixed c (Or.inl (Or.inr hc))
  · exact hfixed c (Or.inr hc)
  · exact isWhitespace_of_isAlphanum (hx.alphanum c hc)

/-- The key tells the edition and the extension. -/
theorem keyText_injective (h : keyText env e x = keyText env e' x') : e = e' ∧ x = x' := by
  have hchars := congrArg String.toList h
  rw [toList_keyText, toList_keyText] at hchars
  simp only [List.append_assoc, List.append_right_inj] at hchars
  have hlength : (e.text env).toList.length = (e'.text env).toList.length :=
    (env.ulidText_length _ e.2).trans (env.ulidText_length _ e'.2).symm
  obtain ⟨hid, hrest⟩ := List.append_inj hchars hlength
  rw [List.append_right_inj, List.append_right_inj] at hrest
  exact ⟨DbId.text_injective env (String.toList_injective hid), String.toList_injective hrest⟩

end Texts

/-! ## What a call leaves -/

section Steps

variable {env : Env} {p : Platform} {root : String} {e : DbId} {c : FileCoverStorage} {w : Kept}

/-- The trees after a cover was stored. -/
def storedFiles (env : Env) (p : Platform) (e : DbId) (x : String) (bytes : Bytes)
    (c : FileCoverStorage) : FileCoverStorage where
  entries := c.entries.insert (p.contentHash (keyText env e x)) bytes
  markers := write c.markers (e.text env) (p.contentHash (keyText env e x)) (keyText env e x)
  permanent := write (createDir c.permanent (e.text env)) (e.text env) ("cover." ++ x) bytes

theorem store_eq (x : String) (bytes : Bytes) : c.store env p (coverKey env e x) bytes =
    (.ok ⟨keyText env e x, e, none, none, some bytes.length⟩, { c with
      entries := c.entries.insert (p.contentHash (keyText env e x)) bytes
      markers := write c.markers (e.text env) (p.contentHash (keyText env e x))
        (keyText env e x) }) := by
  have hid : (env.ulidParse (coverKey env e x).identifierValue).bind DbId.ofBytes? = some e := by
    show (env.ulidParse (env.ulidText e.val)).bind DbId.ofBytes? = some e
    rw [env.ulidParse_text _ e.2, Option.bind_some, DbId.ofBytes?, dif_pos e.2]
  rw [FileCoverStorage.store]
  dsimp only
  rw [hid]
  rfl

theorem copyToPermanent_eq {x : String} {bytes : Bytes} (hx : Clean x)
    (hentry : c.entries.lookup (p.contentHash (keyText env e x)) = some bytes) :
    c.copyToPermanent env p (coverKey env e x) e x = (.ok (), { c with
      permanent := write (createDir c.permanent (e.text env)) (e.text env)
        ("cover." ++ x) bytes }) := by
  have hlookup : c.entries.lookup (p.contentHash (coverKey env e x).contentKey) = some bytes :=
    hentry
  rw [FileCoverStorage.copyToPermanent]
  rw [hlookup]
  dsimp only
  rw [sanitize_of_clean hx, if_neg hx.nonempty]

theorem permanentPath_eq {x : String} (hx : Clean x) :
    FileCoverStorage.permanentPath env e x = .ok ⟨e.text env, "cover." ++ x⟩ := by
  rw [FileCoverStorage.permanentPath, sanitize_of_clean hx, if_neg hx.nonempty]

theorem storeCover_of_accepted {ext x : String} {bytes : Bytes} (hroot : trim root ≠ "")
    (h : accepted ext bytes = some x) : storeCover env p e root ext bytes c =
      (.ok ⟨e.text env, "cover." ++ x⟩, storedFiles env p e x bytes c) := by
  obtain ⟨hbytes, hext, hx⟩ := clean_of_accepted h
  rw [storeCover]
  rw [hbytes, if_neg Bool.false_ne_true, hext]
  dsimp only
  rw [storageAt, if_neg hroot]
  dsimp only
  rw [store_eq]
  dsimp only
  rw [copyToPermanent_eq hx (AList.lookup_insert _)]
  dsimp only
  rw [permanentPath_eq hx]
  rfl

theorem storeCover_of_refused {ext : String} {bytes : Bytes} (h : accepted ext bytes = none) :
    (storeCover env p e root ext bytes c).2 = c := by
  rw [storeCover]
  rw [accepted] at h
  split
  · rfl
  · rename_i hbytes
    rw [if_neg hbytes] at h
    cases hext : cleanExtension ext with
    | error err => rfl
    | ok x =>
        rw [hext] at h
        cases h

theorem forgetCover_eq (hroot : trim root ≠ "") :
    forgetCover env e root c = (.ok (), c.remove env e) := by
  rw [forgetCover]
  rw [storageAt, if_neg hroot]

/-- The trees hold the covers: each with its marker and its copy. -/
structure Holds (env : Env) (p : Platform) (c : FileCoverStorage) (w : Kept) : Prop where
  clean : ∀ e x b, w.latest e x = some b → Clean x
  marker : ∀ e h t, read c.markers (e.text env) h = some t ↔
    ∃ x b, w.latest e x = some b ∧ h = p.contentHash (keyText env e x) ∧ t = keyText env e x
  copy : ∀ e x b, w.latest e x = some b →
    read c.permanent (e.text env) ("cover." ++ x) = some b
  newest : ∀ e, w.newest e = none ↔ ∀ x, w.latest e x = none
  among : ∀ e b, w.newest e = some b → ∃ x, w.latest e x = some b

theorem holds_empty : Holds env p .empty .nothing where
  clean := fun _ _ _ h => by cases h
  marker := fun e h t => iff_of_false (by rintro ⟨⟩) (by rintro ⟨x, b, ⟨⟩, _⟩)
  copy := fun _ _ _ h => by cases h
  newest := fun _ => iff_of_true rfl fun _ => rfl
  among := fun _ _ h => by cases h

end Steps

/-! ### The covers that are kept -/

namespace Kept

variable {w : Kept} {e e' : DbId} {x x' : String} {b bytes : Bytes}

theorem latest_stored : (w.stored e x bytes).latest e' x' =
    if e' = e ∧ x' = x then some bytes else w.latest e' x' := by
  show Function.update w.latest e (Function.update (w.latest e) x (some bytes)) e' x' = _
  by_cases he : e' = e
  · subst he
    rw [Function.update_self]
    by_cases hx : x' = x
    · rw [hx, Function.update_self, if_pos ⟨rfl, rfl⟩]
    · rw [Function.update_of_ne hx, if_neg fun h => hx h.2]
  · rw [Function.update_of_ne he, if_neg fun h => he h.1]

theorem newest_stored : (w.stored e x bytes).newest e' =
    if e' = e then some bytes else w.newest e' := Function.update_apply _ _ _ _

theorem latest_forgotten : (w.forgotten e).latest e' x' =
    if e' = e then none else w.latest e' x' := by
  show Function.update w.latest e (fun _ => none) e' x' = _
  rw [Function.update_apply]
  split <;> rfl

theorem newest_forgotten : (w.forgotten e).newest e' =
    if e' = e then none else w.newest e' := Function.update_apply _ _ _ _

end Kept

/-! ### The trees keep up -/

section Invariant

variable {env : Env} {p : Platform} {root : String} {e : DbId} {c : FileCoverStorage} {w : Kept}

theorem markerKey_inj {e e' : DbId} {x x' : String}
    (h : p.contentHash (keyText env e x) = p.contentHash (keyText env e' x')) :
    e = e' ∧ x = x' := keyText_injective (p.separates _ _ h)

theorem holds_stored (hc : Holds env p c w) {x : String} (hx : Clean x) (bytes : Bytes) :
    Holds env p (storedFiles env p e x bytes c) (w.stored e x bytes) where
  clean := by
    intro e' x' b h
    rw [Kept.latest_stored] at h
    split at h
    · rename_i hnew
      exact hnew.2 ▸ hx
    · exact hc.clean e' x' b h
  marker := by
    intro e' h t
    show read (write c.markers (e.text env) _ _) (e'.text env) h = some t ↔ _
    rw [read_write]
    split
    · rename_i hnew
      -- the marker just written: its key separates both edition and text
      obtain rfl := DbId.text_injective env hnew.1
      constructor
      · intro ht
        exact ⟨x, bytes, by rw [Kept.latest_stored, if_pos ⟨rfl, rfl⟩], hnew.2,
          (Option.some.inj ht).symm⟩
      · rintro ⟨x', b, _, hhash, rfl⟩
        rw [(markerKey_inj (hnew.2.symm.trans hhash)).2]
    · rename_i hold
      rw [hc.marker]
      -- another marker: what it tells of is still the latest
      refine exists_congr fun x' => exists_congr fun b => and_congr_left fun hkey => ?_
      rw [Kept.latest_stored, if_neg]
      rintro ⟨rfl, rfl⟩
      exact hold ⟨rfl, hkey.1⟩
  copy := by
    intro e' x' b h
    show read (write (createDir c.permanent _) _ _ _) _ _ = some b
    rw [Kept.latest_stored] at h
    rw [read_write, read_createDir]
    split at h
    · rename_i hnew
      rw [if_pos ⟨by rw [hnew.1], by rw [hnew.2]⟩]
      exact h
    · rename_i hold
      rw [if_neg]
      · exact hc.copy e' x' b h
      · rintro ⟨hid, hname⟩
        exact hold ⟨DbId.text_injective env hid, String.append_right_inj _ |>.1 hname⟩
  newest := by
    intro e'
    simp only [Kept.newest_stored, Kept.latest_stored]
    -- an edition with a cover has a newest one, and the others keep theirs
    by_cases he : e' = e
    · refine iff_of_false (by rw [if_pos he]; exact Option.some_ne_none _) fun h => ?_
      have := h x
      rw [if_pos ⟨he, rfl⟩] at this
      cases this
    · rw [if_neg he, hc.newest]
      refine forall_congr' fun x' => ?_
      rw [if_neg fun h => he h.1]
  among := by
    intro e' b h
    rw [Kept.newest_stored] at h
    split at h
    · rename_i he
      exact ⟨x, by rw [Kept.latest_stored, if_pos ⟨he, rfl⟩]; exact h⟩
    · rename_i he
      obtain ⟨x', hx'⟩ := hc.among e' b h
      exact ⟨x', by rw [Kept.latest_stored, if_neg fun h => he h.1]; exact hx'⟩

theorem holds_forgotten (hc : Holds env p c w) :
    Holds env p (c.remove env e) (w.forgotten e) where
  clean := by
    intro e' x b h
    rw [Kept.latest_forgotten] at h
    split at h
    · cases h
    · exact hc.clean e' x b h
  marker := by
    intro e' h t
    show read (removeDir c.markers (e.text env)) (e'.text env) h = some t ↔ _
    simp only [read_removeDir, Kept.latest_forgotten]
    -- the directory of the edition goes with all its markers, and no other
    by_cases he : e' = e
    · rw [if_pos (congrArg (DbId.text env) he)]
      refine iff_of_false (by rintro ⟨⟩) ?_
      rintro ⟨x, b, hlatest, _⟩
      rw [if_pos he] at hlatest
      cases hlatest
    · rw [if_neg fun h => he (DbId.text_injective env h), hc.marker]
      simp only [if_neg he]
  copy := by
    intro e' x b h
    rw [Kept.latest_forgotten] at h
    split at h
    · cases h
    · rename_i he
      show read (removeDir c.permanent (e.text env)) _ _ = some b
      rw [read_removeDir, if_neg fun h => he (DbId.text_injective env h)]
      exact hc.copy e' x b h
  newest := by
    intro e'
    simp only [Kept.newest_forgotten, Kept.latest_forgotten]
    by_cases he : e' = e
    · rw [if_pos he]
      exact iff_of_true rfl fun _ => if_pos he
    · rw [if_neg he, hc.newest]
      simp only [if_neg he]
  among := by
    intro e' b h
    rw [Kept.newest_forgotten] at h
    split at h
    · cases h
    · rename_i he
      obtain ⟨x, hx⟩ := hc.among e' b h
      exact ⟨x, by rw [Kept.latest_forgotten, if_neg he]; exact hx⟩

theorem holds_step (hroot : trim root ≠ "") (hc : Holds env p c w) (a : Action) :
    Holds env p (step env p root c a) (w.after a) := by
  cases a with
  | store e ext bytes =>
      show Holds env p (storeCover env p e root ext bytes c).2 _
      rw [Kept.after]
      cases haccepted : accepted ext bytes with
      | none =>
          rw [storeCover_of_refused haccepted]
          exact hc
      | some x =>
          rw [storeCover_of_accepted hroot haccepted]
          exact holds_stored hc (clean_of_accepted haccepted).2.2 bytes
  | forget e =>
      show Holds env p (forgetCover env e root c).2 _
      rw [forgetCover_eq hroot]
      exact holds_forgotten hc

theorem holds_exec (hroot : trim root ≠ "") (run : List Action) :
    ∀ {c : FileCoverStorage} {w : Kept}, Holds env p c w →
      Holds env p (Runs.exec (step env p root) c run) (Runs.exec Kept.after w run) := by
  induction run with
  | nil => exact fun h => h
  | cons a rest ih => exact fun h => ih (holds_step hroot h a)

end Invariant

/-! ## What is read -/

section Reading

variable {env : Env} {p : Platform} {root : String} {e : DbId} {c : FileCoverStorage} {w : Kept}
  (listing : Listing String) (inventory : DbId → Option (Option String × Option String))

theorem contentKey_cachedCover {x : String} (hx : Clean x) (hash : String) :
    ∃ entry, FileCoverStorage.cachedCover inventory e c ⟨hash, keyText env e x⟩ = some entry ∧
      entry.contentKey = keyText env e x := by
  have hne : keyText env e x ≠ "" := by
    intro hempty
    have hext := @extensionOf_keyText env e x hx
    have hnone : extensionOf "" = none := rfl
    rw [hempty, hnone] at hext
    cases hext
  rw [FileCoverStorage.cachedCover]
  dsimp only
  rw [trim_keyText hx, if_neg hne]
  exact ⟨_, rfl, rfl⟩

/-- A cover that is listed first is the first of the list. -/
theorem head?_listCached {x : String} (hx : Clean x) {hash : String}
    {entries : List (Sigma fun _ : String => String)}
    (hfiles : files c.markers (e.text env) = some entries)
    (hfirst : (listing.order entries).head? = some ⟨hash, keyText env e x⟩) :
    ∃ entry, (c.listCached env listing inventory e).head? = some entry ∧
      entry.contentKey = keyText env e x := by
  obtain ⟨entry, hentry, hkey⟩ := @contentKey_cachedCover env e c inventory x hx hash
  obtain ⟨rest, hrest⟩ := List.head?_eq_some_iff.1 hfirst
  refine ⟨entry, ?_, hkey⟩
  rw [FileCoverStorage.listCached]
  rw [hfiles]
  dsimp only
  rw [hrest, List.filterMap_cons_some hentry, List.head?_cons]

/-- What is read is the copy of the cover that is listed first. -/
theorem coverCachePath_of_first (hroot : trim root ≠ "") (hc : Holds env p c w) {x : String}
    {b : Bytes} (hlatest : w.latest e x = some b) {entry : CachedCover}
    (hfirst : (c.listCached env listing inventory e).head? = some entry)
    (hkey : entry.contentKey = keyText env e x) :
    coverCachePath env p listing inventory e root c =
      (.ok (some ⟨e.text env, "cover." ++ x⟩), c) := by
  have hx := hc.clean e x b hlatest
  rw [coverCachePath]
  rw [storageAt, if_neg hroot]
  dsimp only
  rw [hfirst]
  dsimp only
  rw [hkey, extensionOf_keyText hx]
  dsimp only
  rw [permanentPath_eq hx]
  dsimp only
  have hcontent : c.content ⟨e.text env, "cover." ++ x⟩ = some b := hc.copy e x b hlatest
  rw [hcontent]
  rfl

/-- Without a marker, nothing is read. -/
theorem coverCachePath_of_none (hroot : trim root ≠ "")
    (hnone : c.listCached env listing inventory e = []) :
    coverCachePath env p listing inventory e root c = (.ok none, c) := by
  rw [coverCachePath]
  rw [storageAt, if_neg hroot]
  dsimp only
  rw [hnone]
  rfl

theorem listCached_eq_nil_or (hc : Holds env p c w) :
    (c.listCached env listing inventory e = [] ∧ w.newest e = none) ∨
      ∃ x b entry, w.latest e x = some b ∧
        (c.listCached env listing inventory e).head? = some entry ∧
        entry.contentKey = keyText env e x := by
  cases hfiles : files c.markers (e.text env) with
  | none =>
      refine Or.inl ⟨by rw [FileCoverStorage.listCached, hfiles], (hc.newest e).2 fun x => ?_⟩
      by_contra hsome
      obtain ⟨b, hb⟩ := Option.ne_none_iff_exists'.1 hsome
      obtain ⟨entries, hentries⟩ := files_of_read ((hc.marker e _ _).2 ⟨x, b, hb, rfl, rfl⟩)
      rw [hfiles] at hentries
      cases hentries
  | some entries =>
      have hperm := listing.perm entries
      cases horder : listing.order entries with
      | nil =>
          rw [horder] at hperm
          obtain rfl := List.nil_perm.1 hperm
          refine Or.inl ⟨by rw [FileCoverStorage.listCached, hfiles]; dsimp only; rw [horder]; rfl,
            (hc.newest e).2 fun x => ?_⟩
          by_contra hsome
          obtain ⟨b, hb⟩ := Option.ne_none_iff_exists'.1 hsome
          exact List.not_mem_nil ((mem_files hfiles).2 ((hc.marker e _ _).2 ⟨x, b, hb, rfl, rfl⟩))
      | cons marker rest =>
          have hmem : marker ∈ entries := by
            rw [← hperm.mem_iff, horder]
            exact List.mem_cons_self
          obtain ⟨hash, text⟩ := marker
          obtain ⟨x, b, hb, _, rfl⟩ := (hc.marker e hash text).1 ((mem_files hfiles).1 hmem)
          obtain ⟨entry, hentry, hkey⟩ := head?_listCached listing inventory (hc.clean e x b hb)
            hfiles (by rw [horder, List.head?_cons])
          exact Or.inr ⟨x, b, entry, hb, hentry, hkey⟩

theorem readsNewest_of_agree (hroot : trim root ≠ "") (hc : Holds env p c w)
    (hagree : ∀ x b, w.latest e x = some b → w.newest e = some b) :
    ReadsNewest env p root c w e := by
  intro listing inventory
  rcases listCached_eq_nil_or (e := e) listing inventory hc with
    ⟨hnil, hnone⟩ | ⟨x, b, entry, hlatest, hfirst, hkey⟩
  · refine ⟨none, c, coverCachePath_of_none listing inventory hroot hnil, ?_⟩
    rw [hnone]
    rfl
  · refine ⟨_, c, coverCachePath_of_first _ _ hroot hc hlatest hfirst hkey, ?_⟩
    rw [hagree x b hlatest]
    exact congrArg some (hc.copy e x b hlatest)

theorem agree_of_readsNewest (hroot : trim root ≠ "") (hc : Holds env p c w)
    (h : ReadsNewest env p root c w e) {x : String} {b : Bytes} (hlatest : w.latest e x = some b) :
    w.newest e = some b := by
  have hmarker := (hc.marker e _ _).2 ⟨x, b, hlatest, rfl, rfl⟩
  obtain ⟨entries, hfiles⟩ := files_of_read hmarker
  -- the file system may list the marker of this cover first
  obtain ⟨entry, hfirst, hkey⟩ := head?_listCached (Listing.beginning _) (fun _ => none)
    (hc.clean e x b hlatest) hfiles (Listing.head?_beginning ((mem_files hfiles).2 hmarker))
  obtain ⟨path, c', hread, hcontent⟩ := h (Listing.beginning _) fun _ => none
  rw [coverCachePath_of_first _ _ hroot hc hlatest hfirst hkey] at hread
  obtain ⟨hpath, rfl⟩ := Prod.mk.inj hread
  cases Except.ok.inj hpath
  have hcopy : c.content ⟨e.text env, "cover." ++ x⟩ = some b := hc.copy e x b hlatest
  rw [Option.map_some, hcopy] at hcontent
  cases hnewest : w.newest e with
  | none =>
      rw [hnewest] at hcontent
      cases hcontent
  | some b' =>
      rw [hnewest] at hcontent
      exact (Option.some.inj hcontent).symm

theorem root_of_readsNewest (h : ReadsNewest env p root c w e) : trim root ≠ "" := by
  intro hblank
  obtain ⟨path, c', hread, _⟩ := h ⟨id, fun _ => List.Perm.refl _⟩ fun _ => none
  rw [coverCachePath] at hread
  rw [storageAt, if_pos hblank] at hread
  cases (Prod.mk.inj hread).1

end Reading

/-- **THE NEWEST COVER IS READ** after a run of calls, in whatever order the markers are
    listed, exactly if the cache root is not blank and the last cover of each extension since
    the edition was forgotten is the newest one. -/
theorem readsNewest_iff (env : Env) (p : Platform) (root : String) (run : List Action)
    (e : DbId) :
    ReadsNewest env p root (Runs.exec (step env p root) .empty run)
        (Runs.exec Kept.after .nothing run) e ↔
      trim root ≠ "" ∧ ∀ x b, (Runs.exec Kept.after .nothing run).latest e x = some b →
        (Runs.exec Kept.after .nothing run).newest e = some b := by
  constructor
  · intro h
    have hroot := root_of_readsNewest h
    exact ⟨hroot, fun x b => agree_of_readsNewest hroot (holds_exec hroot run holds_empty) h⟩
  · rintro ⟨hroot, hagree⟩
    exact readsNewest_of_agree hroot (holds_exec hroot run holds_empty) hagree

/-! ## A cover with another extension -/

/-- Keys are their own hashes. -/
def Platform.plain : Platform := ⟨id, fun _ _ h => h, "No such file or directory"⟩

/-- A corrected image in another format. -/
def corrected : List Action :=
  [.store (sampleId 1) "jpg" [1], .store (sampleId 1) "png" [2]]

/-- The wrong image may still be read. -/
theorem not_readsNewest_corrected :
    ¬ ReadsNewest Env.reference .plain "cache"
      (Runs.exec (step Env.reference .plain "cache") .empty corrected)
      (Runs.exec Kept.after .nothing corrected) (sampleId 1) := by
  intro h
  have hroot : trim "cache" ≠ "" := by decide
  have hagree := agree_of_readsNewest (x := "jpg") (b := [1]) hroot
    (holds_exec hroot corrected holds_empty) h (by decide)
  exact absurd hagree (by decide)

end Covers
