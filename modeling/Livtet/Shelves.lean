import Mathlib.Data.List.Nodup
import Mathlib.Data.List.Perm.Basic
import Mathlib.Tactic.MkIffOfInductiveProp

/-! # Shelves

    A book is on one shelf for each account, in a row that stays when the book is moved. The
    call that moves it looks for the rows of the book, whoever's they are: it keeps the newest
    and makes it the account's, and deletes the others. A book that is on no shelf gets a row
    whose key is the text of the book and the shelf.

    The account gets its row, and the other accounts keep theirs, exactly if no other account
    has the book on a shelf, and the key of a new row is not taken (`perAccount_iff`). -/

namespace Shelves

/-! ## The tables -/

/-- A row of `book_shelf`. -/
structure BookShelf where
  uri : String
  shelfUri : String
  bookUri : String
  status : String
  position : Option Int
  notes : Option String
  emoji : Option String
  createdAt : Int
  updatedAt : Option Int
  did : String
deriving DecidableEq, Repr

/-- The uris of the shelves, and the books on them. -/
structure Tables where
  shelves : List String
  rows : List BookShelf

namespace Tables

/-- The constraints of `book_shelf`. -/
@[mk_iff]
structure Sound (t : Tables) : Prop where
  primaryKey : (t.rows.map fun r => r.uri).Nodup
  accountKey : (t.rows.map fun r => (r.did, r.bookUri)).Nodup
  shelfKey : (t.rows.map fun r => r.shelfUri) ⊆ t.shelves

instance (t : Tables) : Decidable t.Sound := decidable_of_iff _ (sound_iff t).symm

end Tables

structure Db where
  tables : Tables
  sound : tables.Sound

def Db.rows (db : Db) : List BookShelf := db.tables.rows

inductive DbErr
  | exec (message : String)
  | recordNotUpdated
deriving DecidableEq, Repr

/-- The tables a statement leaves, unless they break a constraint. -/
def execute (t : Tables) : Except DbErr Db :=
  if h : t.Sound then .ok ⟨t, h⟩ else .error (.exec "constraint failed")

theorem execute_of_sound {t : Tables} (h : t.Sound) : execute t = .ok ⟨t, h⟩ := dif_pos h

theorem execute_of_not_sound {t : Tables} (h : ¬ t.Sound) :
    execute t = .error (.exec "constraint failed") := dif_neg h

theorem sound_filter {t : Tables} (h : t.Sound) (p : BookShelf → Bool) :
    Tables.Sound { t with rows := t.rows.filter p } where
  primaryKey := h.primaryKey.sublist (List.filter_sublist.map _)
  accountKey := h.accountKey.sublist (List.filter_sublist.map _)
  shelfKey := fun _ hmem => h.shelfKey ((List.filter_sublist.map _).subset hmem)

/-- `delete_by_id`, which breaks no constraint. -/
def Db.deleteById (db : Db) (uri : String) : Db where
  tables := { db.tables with rows := db.rows.filter fun r => decide (r.uri ≠ uri) }
  sound := sound_filter db.sound _

/-- `UPDATE` of the row with the new row's key. -/
def Db.update (db : Db) (new : BookShelf) : Except DbErr Db :=
  if db.rows.any fun r => decide (r.uri = new.uri) then
    execute { db.tables with rows := db.rows.map fun r => if r.uri = new.uri then new else r }
  else .error .recordNotUpdated

def Db.insert (db : Db) (new : BookShelf) : Except DbErr Db :=
  execute { db.tables with rows := db.rows ++ [new] }

/-! ## Shelving -/

inductive ReadingStatus
  | reading
  | read
  | toRead
  | dnf
deriving DecidableEq, Repr

def ReadingStatus.asStr : ReadingStatus → String
  | .reading => "reading"
  | .read => "read"
  | .toRead => "to-read"
  | .dnf => "dnf"

/-- `ORDER BY created_at DESC`, which leaves the order of rows of one time open. -/
structure NewestFirst where
  order : List BookShelf → List BookShelf
  perm : ∀ rows, (order rows).Perm rows
  sorted : ∀ rows, (order rows).Pairwise fun a b => b.createdAt ≤ a.createdAt

/-- The loop: the first row survives, the others are deleted. -/
def keepFirst (found : Option BookShelf × Db) (row : BookShelf) : Option BookShelf × Db :=
  match found.1 with
  | none => (some row, found.2)
  | some _ => (found.1, found.2.deleteById row.uri)

def rowsOfBook (db : Db) (bookUri : String) : List BookShelf :=
  db.rows.filter fun r => decide (r.bookUri = bookUri)

/-- The row after a move. -/
def movedRow (now : Int) (did shelfUri : String) (status : ReadingStatus) (row : BookShelf) :
    BookShelf :=
  { row with shelfUri, status := status.asStr, did, updatedAt := some now }

/-- The row of a book that is on no shelf. -/
def newEntry (now : Int) (did shelfUri bookUri : String) (status : ReadingStatus) : BookShelf where
  uri := bookUri ++ ":" ++ shelfUri
  shelfUri
  bookUri
  status := status.asStr
  position := none
  notes := none
  emoji := none
  createdAt := now
  updatedAt := none
  did

/-- What the call returns, and the database after it. -/
def upsertBookShelf (newest : NewestFirst) (now : Int) (did shelfUri bookUri : String)
    (status : ReadingStatus) (db : Db) : Except DbErr BookShelf × Db :=
  match (newest.order (rowsOfBook db bookUri)).foldl keepFirst (none, db) with
  | (some row, db) =>
      match db.update (movedRow now did shelfUri status row) with
      | .ok db' => (.ok (movedRow now did shelfUri status row), db')
      | .error e => (.error e, db)
  | (none, db) =>
      match db.insert (newEntry now did shelfUri bookUri status) with
      | .ok db' => (.ok (newEntry now did shelfUri bookUri status), db')
      | .error e => (.error e, db)

/-! ## For one account -/

section PerAccount

variable (newest : NewestFirst) (now : Int) (did shelfUri bookUri : String) (status : ReadingStatus)
variable (db : Db)

/-- The call succeeds, the account has one row for the book, on the shelf and with the status,
    and the rows of other accounts are as they were. -/
structure PerAccount : Prop where
  succeeds : ∃ row, (upsertBookShelf newest now did shelfUri bookUri status db).1 = .ok row
  one_row : ∃ row, ((upsertBookShelf newest now did shelfUri bookUri status db).2.rows.filter
    fun r => decide (r.did = did ∧ r.bookUri = bookUri)) = [row] ∧
      row.shelfUri = shelfUri ∧ row.status = status.asStr
  others : ∀ r, r.did ≠ did →
    (r ∈ (upsertBookShelf newest now did shelfUri bookUri status db).2.rows ↔ r ∈ db.rows)

/-- No other account has the book on a shelf, and if this one has not either, the key of the
    new row is free. -/
structure Unshared : Prop where
  own : ∀ r ∈ db.rows, r.bookUri = bookUri → r.did = did
  free : (∀ r ∈ db.rows, r.bookUri ≠ bookUri) → ∀ r ∈ db.rows, r.uri ≠ bookUri ++ ":" ++ shelfUri

end PerAccount

section Proofs

variable {newest : NewestFirst} {now : Int} {did shelfUri bookUri : String} {status : ReadingStatus}
variable {db : Db}

theorem mem_deleteById {uri : String} {r : BookShelf} :
    r ∈ (db.deleteById uri).rows ↔ r ∈ db.rows ∧ r.uri ≠ uri := by
  rw [Db.rows, Db.deleteById, List.mem_filter, decide_eq_true_eq]

/-- Once a row survives, the rest of the loop deletes. -/
theorem foldl_keepFirst_some (row : BookShelf) (rest : List BookShelf) :
    ∀ db : Db, ∃ db' : Db, rest.foldl keepFirst (some row, db) = (some row, db') ∧
      db'.tables.shelves = db.tables.shelves ∧
      ∀ r, r ∈ db'.rows ↔ r ∈ db.rows ∧ ∀ gone ∈ rest, r.uri ≠ gone.uri := by
  induction rest with
  | nil => exact fun db => ⟨db, rfl, rfl, fun r => by simp⟩
  | cons next rest ih =>
      intro db
      obtain ⟨db', heq, hshelves, hrows⟩ := ih (db.deleteById next.uri)
      refine ⟨db', heq, hshelves, fun r => ?_⟩
      rw [hrows r, mem_deleteById, List.forall_mem_cons, and_assoc]

/-- Two rows with one key are the same row. -/
theorem eq_of_uri_eq {r r' : BookShelf} (hr : r ∈ db.rows) (hr' : r' ∈ db.rows)
    (h : r.uri = r'.uri) : r = r' := List.inj_on_of_nodup_map db.sound.primaryKey hr hr' h

/-- The rows of a book. -/
theorem mem_order {r : BookShelf} : r ∈ newest.order (rowsOfBook db bookUri) ↔
    r ∈ db.rows ∧ r.bookUri = bookUri := by
  rw [(newest.perm _).mem_iff, rowsOfBook, List.mem_filter, decide_eq_true_eq]

/-- A moved row breaks no constraint where it is the only one of its book. -/
theorem update_of_only {new : BookShelf} (hthere : ∃ r ∈ db.rows, r.uri = new.uri)
    (honly : ∀ r ∈ db.rows, r.bookUri = new.bookUri → r.uri = new.uri)
    (hshelf : new.shelfUri ∈ db.tables.shelves) :
    ∃ db' : Db, db.update new = .ok db' ∧
      ∀ r, r ∈ db'.rows ↔ r = new ∨ (r ∈ db.rows ∧ r.uri ≠ new.uri) := by
  -- the row keeps its uri, so only its book and shelf can clash
  have huris : (db.rows.map fun r => if r.uri = new.uri then new else r).map (fun r => r.uri) =
      db.rows.map fun r => r.uri := by
    rw [List.map_map]
    refine List.map_congr_left fun r _ => ?_
    show (if r.uri = new.uri then new else r).uri = r.uri
    split
    · next h => exact h.symm
    · rfl
  have hsound : Tables.Sound { db.tables with
      rows := db.rows.map fun r => if r.uri = new.uri then new else r } := by
    refine ⟨?_, ?_, ?_⟩
    · show ((db.rows.map _).map _).Nodup
      rw [huris]
      exact db.sound.primaryKey
    · show ((db.rows.map _).map _).Nodup
      rw [List.map_map]
      refine (List.nodup_map_iff_inj_on (List.Nodup.of_map _ db.sound.primaryKey)).2 ?_
      intro r hr r' hr' heq
      simp only [Function.comp_apply, Prod.mk.injEq] at heq
      by_cases h : r.uri = new.uri
      · by_cases h' : r'.uri = new.uri
        · exact eq_of_uri_eq hr hr' (h.trans h'.symm)
        · rw [if_pos h, if_neg h'] at heq
          exact absurd (honly r' hr' heq.2.symm) h'
      · by_cases h' : r'.uri = new.uri
        · rw [if_neg h, if_pos h'] at heq
          exact absurd (honly r hr heq.2) h
        · rw [if_neg h, if_neg h'] at heq
          exact List.inj_on_of_nodup_map db.sound.accountKey hr hr' (Prod.ext heq.1 heq.2)
    · intro shelf hmem
      obtain ⟨r', hr', rfl⟩ := List.mem_map.1 hmem
      obtain ⟨r, hr, rfl⟩ := List.mem_map.1 hr'
      by_cases h : r.uri = new.uri
      · simp only [if_pos h]
        exact hshelf
      · simp only [if_neg h]
        exact db.sound.shelfKey (List.mem_map_of_mem hr)
  refine ⟨⟨_, hsound⟩, ?_, fun r => ?_⟩
  · obtain ⟨r, hr, huri⟩ := hthere
    have hany : db.rows.any (fun r => decide (r.uri = new.uri)) = true :=
      List.any_eq_true.2 ⟨r, hr, decide_eq_true huri⟩
    rw [Db.update, if_pos hany, execute_of_sound hsound]
  · show r ∈ db.rows.map _ ↔ _
    rw [List.mem_map]
    constructor
    · rintro ⟨old, hold, rfl⟩
      by_cases h : old.uri = new.uri
      · rw [if_pos h]
        exact Or.inl rfl
      · rw [if_neg h]
        exact Or.inr ⟨hold, h⟩
    · rintro (rfl | ⟨hr, hne⟩)
      · obtain ⟨old, hold, huri⟩ := hthere
        exact ⟨old, hold, if_pos huri⟩
      · exact ⟨r, hr, if_neg hne⟩

/-- Of the rows of the book, whoever's they are, one is left. -/
theorem upsert_of_shelved (hshelf : shelfUri ∈ db.tables.shelves)
    (hsome : ∃ r ∈ db.rows, r.bookUri = bookUri) :
    ∃ row ∈ db.rows, row.bookUri = bookUri ∧ ∃ db' : Db,
      upsertBookShelf newest now did shelfUri bookUri status db =
        (.ok (movedRow now did shelfUri status row), db') ∧
      ∀ r, r ∈ db'.rows ↔ r = movedRow now did shelfUri status row ∨
        (r ∈ db.rows ∧ r.bookUri ≠ bookUri) := by
  have hkeys : ((newest.order (rowsOfBook db bookUri)).map fun r => r.uri).Nodup := by
    refine ((newest.perm _).map _).nodup_iff.2 ?_
    exact db.sound.primaryKey.sublist (List.filter_sublist.map _)
  obtain ⟨row, rest, horder⟩ : ∃ row rest, newest.order (rowsOfBook db bookUri) = row :: rest := by
    obtain ⟨r, hr, hbook⟩ := hsome
    exact List.exists_cons_of_ne_nil (List.ne_nil_of_mem (mem_order.2 ⟨hr, hbook⟩))
  have hmem : ∀ r, r = row ∨ r ∈ rest ↔ r ∈ db.rows ∧ r.bookUri = bookUri := by
    intro r
    rw [← List.mem_cons, ← horder, mem_order]
  obtain ⟨hrow, hbook⟩ := (hmem row).1 (Or.inl rfl)
  rw [horder, List.map_cons, List.nodup_cons] at hkeys
  have hapart : ∀ gone ∈ rest, row.uri ≠ gone.uri := by
    intro gone hgone heq
    exact hkeys.1 (heq ▸ List.mem_map_of_mem hgone)
  -- the loop deletes every row but the first, so the book is left with one
  obtain ⟨db₁, hloop, hshelves, hrows⟩ := foldl_keepFirst_some row rest db
  have honly : ∀ r ∈ db₁.rows, r.bookUri = bookUri → r = row := by
    intro r hr hr'
    obtain ⟨hthere, hkept⟩ := (hrows r).1 hr
    rcases (hmem r).2 ⟨hthere, hr'⟩ with heq | hgone
    · exact heq
    · exact absurd rfl (hkept r hgone)
  have huri : ∀ r ∈ db₁.rows, r.bookUri = bookUri → r.uri = row.uri :=
    fun r hr hr' => congrArg BookShelf.uri (honly r hr hr')
  obtain ⟨db', hupdate, hafter⟩ := @update_of_only db₁ (movedRow now did shelfUri status row)
    ⟨row, (hrows row).2 ⟨hrow, hapart⟩, rfl⟩
    (fun r hr hr' => huri r hr (hr'.trans hbook)) (hshelves ▸ hshelf)
  refine ⟨row, hrow, hbook, db', ?_, fun r => ?_⟩
  · have hfold : (newest.order (rowsOfBook db bookUri)).foldl keepFirst (none, db) =
        (some row, db₁) := by
      rw [horder]
      exact hloop
    simp only [upsertBookShelf, hfold, hupdate]
  · rw [hafter r, hrows r]
    refine or_congr_right ⟨fun h => ⟨h.1.1, fun hbook' => ?_⟩, fun h => ⟨⟨h.1, ?_⟩, ?_⟩⟩
    · exact h.2 (huri r ((hrows r).2 h.1) hbook')
    · intro gone hgone heq
      obtain ⟨hthere, hbook'⟩ := (hmem gone).1 (Or.inr hgone)
      exact h.2 (eq_of_uri_eq h.1 hthere heq ▸ hbook')
    · intro heq
      exact h.2 (eq_of_uri_eq h.1 hrow heq ▸ hbook)

/-- A book on no shelf gets a row, if its key is free. -/
theorem upsert_of_unshelved (hshelf : shelfUri ∈ db.tables.shelves)
    (hnone : ∀ r ∈ db.rows, r.bookUri ≠ bookUri) :
    ((∀ r ∈ db.rows, r.uri ≠ bookUri ++ ":" ++ shelfUri) ∧ ∃ db' : Db,
      upsertBookShelf newest now did shelfUri bookUri status db =
        (.ok (newEntry now did shelfUri bookUri status), db') ∧
      db'.rows = db.rows ++ [newEntry now did shelfUri bookUri status]) ∨
    ((∃ r ∈ db.rows, r.uri = bookUri ++ ":" ++ shelfUri) ∧
      upsertBookShelf newest now did shelfUri bookUri status db =
        (.error (.exec "constraint failed"), db)) := by
  have horder : newest.order (rowsOfBook db bookUri) = [] := by
    refine List.eq_nil_iff_forall_not_mem.2 fun r hr => ?_
    obtain ⟨hthere, hbook⟩ := mem_order.1 hr
    exact hnone r hthere hbook
  have hfold : (newest.order (rowsOfBook db bookUri)).foldl keepFirst (none, db) = (none, db) := by
    rw [horder]
    rfl
  -- the account and book are new, so only the primary key can refuse the row
  by_cases hfree : ∀ r ∈ db.rows, r.uri ≠ bookUri ++ ":" ++ shelfUri
  · refine Or.inl ⟨hfree, ?_⟩
    have hsound : Tables.Sound { db.tables with
        rows := db.rows ++ [newEntry now did shelfUri bookUri status] } := by
      refine ⟨?_, ?_, ?_⟩
      · show ((db.rows ++ _).map _).Nodup
        rw [List.map_append, List.map_singleton, List.nodup_append]
        refine ⟨db.sound.primaryKey, List.nodup_singleton _, ?_⟩
        intro uri huri uri' huri' heq
        obtain ⟨r, hr, rfl⟩ := List.mem_map.1 huri
        exact hfree r hr (heq.trans (List.mem_singleton.1 huri'))
      · show ((db.rows ++ _).map _).Nodup
        rw [List.map_append, List.map_singleton, List.nodup_append]
        refine ⟨db.sound.accountKey, List.nodup_singleton _, ?_⟩
        intro key hkey key' hkey' heq
        obtain ⟨r, hr, rfl⟩ := List.mem_map.1 hkey
        exact hnone r hr (congrArg Prod.snd (heq.trans (List.mem_singleton.1 hkey')))
      · show (db.rows ++ _).map _ ⊆ _
        rw [List.map_append, List.map_singleton, List.append_subset]
        refine ⟨db.sound.shelfKey, fun uri huri => ?_⟩
        rw [List.mem_singleton.1 huri]
        exact hshelf
    refine ⟨⟨_, hsound⟩, ?_, rfl⟩
    have hinsert : db.insert (newEntry now did shelfUri bookUri status) = .ok ⟨_, hsound⟩ :=
      execute_of_sound hsound
    simp only [upsertBookShelf, hfold, hinsert]
  · simp only [not_forall, not_not] at hfree
    obtain ⟨r, hr, huri⟩ := hfree
    refine Or.inr ⟨⟨r, hr, huri⟩, ?_⟩
    have hinsert : db.insert (newEntry now did shelfUri bookUri status) =
        .error (.exec "constraint failed") := by
      refine execute_of_not_sound fun hsound => ?_
      have hkeys := hsound.primaryKey
      rw [List.map_append, List.map_singleton, List.nodup_append] at hkeys
      exact hkeys.2.2 r.uri (List.mem_map_of_mem hr) _ (List.mem_singleton_self _) huri
    simp only [upsertBookShelf, hfold, hinsert]

/-- One row for an account and a book. -/
theorem filter_eq_singleton {did bookUri : String} {row : BookShelf} (hrow : row ∈ db.rows)
    (hdid : row.did = did) (hbook : row.bookUri = bookUri) :
    db.rows.filter (fun r => decide (r.did = did ∧ r.bookUri = bookUri)) = [row] := by
  have hnodup : db.rows.Nodup := List.Nodup.of_map _ db.sound.primaryKey
  refine List.perm_singleton.1 ((List.perm_ext_iff_of_nodup (hnodup.filter _)
    (List.nodup_singleton _)).2 fun r => ?_)
  rw [List.mem_filter, decide_eq_true_eq, List.mem_singleton]
  constructor
  · rintro ⟨hr, hdid', hbook'⟩
    exact List.inj_on_of_nodup_map db.sound.accountKey hr hrow
      (Prod.ext (hdid'.trans hdid.symm) (hbook'.trans hbook.symm))
  · rintro rfl
    exact ⟨hrow, hdid, hbook⟩

end Proofs

/-- **SHELVING IS PER ACCOUNT** exactly if no other account has the book on a shelf, and the
    key of a new row is free. -/
theorem perAccount_iff (newest : NewestFirst) (now : Int) (did shelfUri bookUri : String)
    (status : ReadingStatus) (db : Db) (hshelf : shelfUri ∈ db.tables.shelves) :
    PerAccount newest now did shelfUri bookUri status db ↔ Unshared did shelfUri bookUri db := by
  by_cases hsome : ∃ r ∈ db.rows, r.bookUri = bookUri
  · obtain ⟨row, hrow, hbook, db', hresult, hrows⟩ :=
      @upsert_of_shelved newest now did shelfUri bookUri status db hshelf hsome
    have hfree : (∀ r ∈ db.rows, r.bookUri ≠ bookUri) →
        ∀ r ∈ db.rows, r.uri ≠ bookUri ++ ":" ++ shelfUri :=
      fun hnone => absurd hbook (hnone row hrow)
    constructor
    · intro h
      refine ⟨fun r hr hbook' => ?_, hfree⟩
      by_contra hne
      -- the row of another account is not as it was
      have hkept := (h.others r hne).2 hr
      rw [hresult, hrows r] at hkept
      rcases hkept with rfl | ⟨_, hother⟩
      · exact hne rfl
      · exact hother hbook'
    · intro h
      have hmoved : movedRow now did shelfUri status row ∈ db'.rows := (hrows _).2 (Or.inl rfl)
      constructor
      · exact ⟨_, congrArg Prod.fst hresult⟩
      · rw [hresult]
        exact ⟨_, filter_eq_singleton hmoved rfl hbook, rfl, rfl⟩
      · intro r hne
        rw [hresult, hrows r]
        constructor
        · rintro (rfl | ⟨hr, _⟩)
          · exact absurd rfl hne
          · exact hr
        · intro hr
          exact Or.inr ⟨hr, fun hbook' => hne (h.own r hr hbook')⟩
  · have hnone : ∀ r ∈ db.rows, r.bookUri ≠ bookUri := fun r hr hbook => hsome ⟨r, hr, hbook⟩
    rcases @upsert_of_unshelved newest now did shelfUri bookUri status db hshelf hnone with
      ⟨hfree, db', hresult, hrows⟩ | ⟨⟨r, hr, huri⟩, hresult⟩
    · refine iff_of_true ⟨⟨_, congrArg Prod.fst hresult⟩, ?_, fun r hne => ?_⟩
        ⟨fun r hr hbook => absurd hbook (hnone r hr), fun _ => hfree⟩
      · rw [hresult]
        have hnew : newEntry now did shelfUri bookUri status ∈ db'.rows := by
          rw [hrows]
          exact List.mem_append_right _ (List.mem_singleton_self _)
        exact ⟨_, filter_eq_singleton hnew rfl rfl, rfl, rfl⟩
      · rw [hresult, hrows, List.mem_append, List.mem_singleton]
        refine or_iff_left ?_
        rintro rfl
        exact hne rfl
    · refine iff_of_false (fun h => ?_) fun h => h.free hnone r hr huri
      obtain ⟨row, hrow⟩ := h.succeeds
      rw [hresult] at hrow
      cases hrow

/-! ## Two accounts with one book -/

def sampleRow (did : String) : BookShelf where
  uri := "book:" ++ did
  shelfUri := "to-read"
  bookUri := "book"
  status := "to-read"
  position := none
  notes := none
  emoji := none
  createdAt := 0
  updatedAt := none
  did

/-- The book is on a shelf of each of the accounts. -/
def shelvedBy (dids : List String) : Tables := ⟨["to-read", "read"], dids.map sampleRow⟩

def oneAccountDb : Db := ⟨shelvedBy ["did:a"], by decide⟩

def twoAccountsDb : Db := ⟨shelvedBy ["did:a", "did:b"], by decide⟩

/-- Rows as they are, by time. -/
def byTime : NewestFirst where
  order rows := rows.mergeSort fun a b => decide (b.createdAt ≤ a.createdAt)
  perm rows := List.mergeSort_perm ..
  sorted rows := by
    refine (List.pairwise_mergeSort ?_ ?_ rows).imp of_decide_eq_true
    · intro a b c hab hbc
      exact decide_eq_true (Int.le_trans (of_decide_eq_true hbc) (of_decide_eq_true hab))
    · intro a b
      rw [Bool.or_eq_true]
      exact (Int.le_total b.createdAt a.createdAt).imp decide_eq_true decide_eq_true

theorem perAccount_oneAccount :
    PerAccount byTime 1 "did:a" "read" "book" .read oneAccountDb :=
  (perAccount_iff byTime 1 "did:a" "read" "book" .read oneAccountDb (by decide)).2
    ⟨by decide, by decide⟩

/-- One account finishes the book, and the other's row is gone. -/
theorem not_perAccount_twoAccounts :
    "read" ∈ twoAccountsDb.tables.shelves ∧
    ¬ PerAccount byTime 1 "did:a" "read" "book" .read twoAccountsDb := by
  refine ⟨by decide, fun h => ?_⟩
  have hmem : sampleRow "did:b" ∈ twoAccountsDb.rows := by decide
  have hkept := (h.others (sampleRow "did:b") (by decide)).2 hmem
  obtain ⟨row, _, _, db', hresult, hrows⟩ := @upsert_of_shelved byTime 1 "did:a" "read" "book"
    .read twoAccountsDb (by decide) ⟨_, hmem, rfl⟩
  rw [hresult, hrows] at hkept
  rcases hkept with heq | ⟨_, hother⟩
  · exact absurd (congrArg BookShelf.did heq) (by decide : "did:b" ≠ "did:a")
  · exact hother rfl

end Shelves
