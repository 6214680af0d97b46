import FlagPlane.KeyedLog
import FlagPlane.Model.Flag

/-!
# FlagPlane.Repository.Tables

The two tables of `migrations/001` and `002`, the repository's read queries over
them, and what one row write does to `feature_flags`.

`feature_flags` is the list of its rows; `flag_events` is the list of its rows **in
commit order**. Every query sorts by version itself, so the list order is visible
to none of them, and keeping it lets statements about commit order be read off
the table.
-/

namespace FlagPlane

/-- A row of `feature_flags`. -/
structure FlagRow where
  id : String
  key : String
  description : String
  enabled : Bool
  rolloutPercentage : Int
  targetedUsers : List String
  version : Int
  createdAt : Timestamp
  updatedAt : Timestamp
  deriving DecidableEq, Repr

/-- The flag of the examples, `checkout`, as migration 002 leaves it. -/
def checkoutRow : FlagRow := ⟨"u", "checkout", "", false, 0, [], 0, 0, 0⟩

/-- Postgres text holds no NUL character. -/
def noNul (s : String) : Bool :=
  s.toList.all (fun c => c.val ≠ 0)

/-- A text assigned to a `VARCHAR(n)` column: blanks beyond `n` characters are cut. Any other
text stays as it is, for the column to refuse when it is longer. -/
def assignVarchar (n : Nat) (s : String) : String :=
  if s.length ≤ n then s
  else if (s.toList.drop n).all (· = ' ') then String.ofList (s.toList.take n) else s

theorem assignVarchar_of_le {n : Nat} {s : String} (h : s.length ≤ n) : assignVarchar n s = s :=
  if_pos h

/-- A text that the column takes cut is not the text it was. -/
theorem assignVarchar_ne {n : Nat} {s : String} (h : n < s.length)
    (hfit : (assignVarchar n s).length ≤ n) : assignVarchar n s ≠ s := by
  intro heq
  rw [heq] at hfit
  omega

/-- A text of `n` letters and a blank. -/
def blankPadded (n : Nat) : String := String.ofList (List.replicate n 'a' ++ [' '])

section BlankPadded

variable (n : Nat)

theorem length_blankPadded : (blankPadded n).length = n + 1 := by
  rw [blankPadded, String.length_ofList, List.length_append, List.length_replicate,
    List.length_singleton]

/-- The column takes it without the blank. -/
theorem assignVarchar_blankPadded :
    assignVarchar n (blankPadded n) = String.ofList (List.replicate n 'a') := by
  have hlong : ¬ (blankPadded n).length ≤ n := by
    rw [length_blankPadded]
    omega
  rw [assignVarchar, if_neg hlong, blankPadded, String.toList_ofList,
    List.drop_left' List.length_replicate, List.take_left' List.length_replicate]
  rfl

theorem length_assignVarchar_blankPadded : (assignVarchar n (blankPadded n)).length ≤ n := by
  rw [assignVarchar_blankPadded, String.length_ofList, List.length_replicate]

theorem noNul_assignVarchar_blankPadded : noNul (assignVarchar n (blankPadded n)) = true := by
  rw [assignVarchar_blankPadded, noNul, String.toList_ofList, List.all_replicate]
  simp

end BlankPadded

/-- The row as `feature_flags` stores it: the description is a `VARCHAR(256)`. (`key` is one of
64 characters, but `keyRegex` lets no blank through that could be cut.) -/
def FlagRow.stored (r : FlagRow) : FlagRow :=
  { r with description := assignVarchar 256 r.description }

section Stored

variable (r : FlagRow)

/-- A row and what is stored of it differ in the description only. -/
theorem FlagRow.eq_stored_of_description (h : r.description = r.stored.description) :
    r = r.stored := by
  rw [stored, show assignVarchar 256 r.description = r.description from h.symm]

@[simp] theorem FlagRow.stored_id : r.stored.id = r.id := rfl

@[simp] theorem FlagRow.stored_key : r.stored.key = r.key := rfl

@[simp] theorem FlagRow.stored_version : r.stored.version = r.version := rfl

end Stored

/-- The column types and the `CHECK` of `feature_flags`: `VARCHAR(64)`,
`VARCHAR(256)`, a percentage from 0 to 100, and encodable text. -/
def FlagRow.columnsOk (r : FlagRow) : Bool :=
  decide (r.key.length ≤ 64) && noNul r.key &&
    decide (r.description.length ≤ 256) && noNul r.description &&
    decide (0 ≤ r.rolloutPercentage ∧ r.rolloutPercentage ≤ 100) &&
    r.targetedUsers.all noNul

theorem FlagRow.description_le {r : FlagRow} (h : r.columnsOk = true) :
    r.description.length ≤ 256 := by
  simp only [columnsOk, Bool.and_eq_true, decide_eq_true_eq] at h
  exact h.1.1.1.2

theorem FlagRow.columnsOk_description {r : FlagRow} (h : r.columnsOk = true) {d : String}
    (hlength : d.length ≤ 256) (hnul : noNul d = true) :
    { r with description := d }.columnsOk = true := by
  simp only [columnsOk, Bool.and_eq_true, decide_eq_true_eq] at h ⊢
  obtain ⟨⟨⟨⟨hkey, -⟩, -⟩, hp⟩, husers⟩ := h
  exact ⟨⟨⟨⟨hkey, hlength⟩, hnul⟩, hp⟩, husers⟩

/-- A row of the table is stored as it is. -/
theorem FlagRow.stored_eq {r : FlagRow} (h : r.columnsOk = true) : r.stored = r := by
  rw [stored, assignVarchar_of_le (description_le h)]

theorem FlagRow.stored_columnsOk {r : FlagRow} (h : r.columnsOk = true) :
    r.stored.columnsOk = true := by
  rw [stored_eq h]
  exact h

/-- `scanFlag`: a row read into the Go struct. A scanned array is never `nil`. -/
def scanFlag (r : FlagRow) : Flag where
  id := r.id
  key := r.key
  description := r.description
  enabled := r.enabled
  rolloutPercentage := r.rolloutPercentage
  targetedUsers := some r.targetedUsers
  version := r.version
  createdAt := r.createdAt
  updatedAt := r.updatedAt

@[simp] theorem scanFlag_version (r : FlagRow) : (scanFlag r).version = r.version := rfl

@[simp] theorem scanFlag_key (r : FlagRow) : (scanFlag r).key = r.key := rfl

/-- The `event_type` column, as its `CHECK` lists the values. -/
inductive EventType
  | created
  | updated
  | deleted
  deriving DecidableEq, Repr

/-- A row of `flag_events`. -/
structure FlagEvent where
  version : Int
  eventType : EventType
  flagKey : String
  payload : Json
  createdAt : Timestamp
  deriving Repr

/-- An event as an entry of a keyed log: `created` and `updated` set what `decode`
makes of the payload under `flag_key`, `deleted` removes `flag_key`. -/
def FlagEvent.entry {ν : Type*} (decode : Json → Option ν) (e : FlagEvent) :
    Entry Int String ν where
  version := e.version
  key := e.flagKey
  value := if e.eventType = .deleted then none else decode e.payload

/-! ### Read queries -/

/-- `SELECT … WHERE id = $1`. The id is a UUID as the column prints it (`Uuid.readUuid`). -/
def findById (flags : List FlagRow) (id : String) : Option FlagRow :=
  flags.find? (fun r => r.id = id)

/-- `SELECT … WHERE key = $1`. -/
def findByKey (flags : List FlagRow) (key : String) : Option FlagRow :=
  flags.find? (fun r => r.key = key)

/-- `postgresRepo.GetByID`, of a UUID. An id that is none makes the query fail instead. -/
def getByID (flags : List FlagRow) (id : String) : Option Flag :=
  (findById flags id).map scanFlag

/-- `postgresRepo.GetByKey`. -/
def getByKey (flags : List FlagRow) (key : String) : Option Flag :=
  (findByKey flags key).map scanFlag

/-- `postgresRepo.List`: `ORDER BY created_at DESC`. -/
def listFlags (flags : List FlagRow) : List Flag :=
  (flags.insertionSort (fun a b => b.createdAt ≤ a.createdAt)).map scanFlag

/-- `postgresRepo.GetLatestVersion`: `COALESCE(MAX(version), 0)`. -/
def getLatestVersion (events : List FlagEvent) : Int :=
  (events.map FlagEvent.version).max?.getD 0

/-- The row cap of `ListEventsSince`. -/
def eventsSinceLimit (limit : Int) : Nat :=
  if limit ≤ 0 then 500 else if limit > 1000 then 1000 else limit.toNat

/-- `postgresRepo.ListEventsSince`: `WHERE version > since ORDER BY version ASC LIMIT …`. -/
def listEventsSince (events : List FlagEvent) (since limit : Int) : List FlagEvent :=
  ((events.filter (fun e => since < e.version)).insertionSort
    (fun a b => a.version ≤ b.version)).take (eventsSinceLimit limit)

theorem le_getLatestVersion {events : List FlagEvent} {e : FlagEvent} (h : e ∈ events) :
    e.version ≤ getLatestVersion events := by
  rw [getLatestVersion]
  cases hm : (events.map FlagEvent.version).max? with
  | none =>
      rw [List.max?_eq_none_iff, List.map_eq_nil_iff] at hm
      subst hm
      cases h
  | some v =>
      rw [List.max?_eq_some_iff] at hm
      exact hm.2 _ (List.mem_map_of_mem h)

/-- The latest version is some event's, unless there is no event. -/
theorem getLatestVersion_mem {events : List FlagEvent} (h : events ≠ []) :
    ∃ e ∈ events, e.version = getLatestVersion events := by
  rw [getLatestVersion]
  cases hm : (events.map FlagEvent.version).max? with
  | none =>
      rw [List.max?_eq_none_iff, List.map_eq_nil_iff] at hm
      exact absurd hm h
  | some v =>
      obtain ⟨e, he, hv⟩ := List.mem_map.mp (List.max?_mem hm)
      exact ⟨e, he, hv⟩

theorem mem_listEventsSince {events : List FlagEvent} {since limit : Int} {e : FlagEvent}
    (h : e ∈ listEventsSince events since limit) : e ∈ events ∧ since < e.version := by
  have hm := (List.perm_insertionSort _ _).mem_iff.mp (List.mem_of_mem_take h)
  simpa using hm

/-- The page is empty only when nothing is above `since`. -/
theorem listEventsSince_eq_nil {events : List FlagEvent} {since limit : Int}
    (h : listEventsSince events since limit = []) {e : FlagEvent} (he : e ∈ events) :
    e.version ≤ since := by
  have hlim : eventsSinceLimit limit ≠ 0 := by
    rw [eventsSinceLimit]
    split
    · omega
    · split <;> omega
  rw [listEventsSince, List.take_eq_nil_iff] at h
  have hnil := h.resolve_left hlim
  have hfilter := (List.perm_insertionSort (fun a b : FlagEvent => a.version ≤ b.version)
    (events.filter (fun e => since < e.version))).symm
  rw [hnil, List.perm_nil, List.filter_eq_nil_iff] at hfilter
  simpa using hfilter e he

/-! ### Row writes -/

/-- What a transaction's write statement does to `feature_flags` once it commits. -/
inductive RowWrite
  /-- `INSERT`: this row is new. -/
  | insert (row : FlagRow)
  /-- `UPDATE`: the row of this id now is `row`. -/
  | update (row : FlagRow)
  /-- `DELETE`: `row` is gone. -/
  | delete (row : FlagRow)
  /-- A `DELETE` that matched no row. -/
  | nothing
  deriving DecidableEq, Repr

/-- The row a write inserts, replaces or removes. -/
def RowWrite.row? : RowWrite → Option FlagRow
  | insert row | update row | delete row => some row
  | nothing => none

/-- What a write does to the table seen as a map from keys. -/
def RowWrite.onKeys (m : String → Option FlagRow) : RowWrite → String → Option FlagRow
  | insert row | update row => Function.update m row.key (some row)
  | delete row => Function.update m row.key none
  | nothing => m

/-- The table after a write. -/
def applyWrite (flags : List FlagRow) : RowWrite → List FlagRow
  | .insert row => flags ++ [row]
  | .update row => flags.map (fun r => if r.id = row.id then row else r)
  | .delete row => flags.filter (fun r => r.id ≠ row.id)
  | .nothing => flags

/-- The primary key and the unique key of `feature_flags`. -/
structure TableKeys (flags : List FlagRow) : Prop where
  ids : (flags.map FlagRow.id).Nodup
  keys : (flags.map FlagRow.key).Nodup

/-- A write that the table admits: an inserted row clashes with no row, an updated
row keeps the id and key of the row it replaces, a deleted row is there. -/
def RowWrite.Fits (flags : List FlagRow) : RowWrite → Prop
  | insert row => ∀ r ∈ flags, r.id ≠ row.id ∧ r.key ≠ row.key
  | update row => ∃ r ∈ flags, r.id = row.id ∧ r.key = row.key
  | delete row => row ∈ flags
  | nothing => True

section Lookup

variable {flags : List FlagRow} {r row : FlagRow} {id key : String}

theorem TableKeys.eq_of_id (h : TableKeys flags) (hr : r ∈ flags) (hrow : row ∈ flags)
    (hid : r.id = row.id) : r = row :=
  List.inj_on_of_nodup_map h.ids hr hrow hid

theorem TableKeys.eq_of_key (h : TableKeys flags) (hr : r ∈ flags) (hrow : row ∈ flags)
    (hkey : r.key = row.key) : r = row :=
  List.inj_on_of_nodup_map h.keys hr hrow hkey

/-- Searching a list by a duplicate-free field finds the element that has it. -/
theorem find?_field_eq_some {α β : Type*} [DecidableEq β] {f : α → β} {l : List α}
    (hn : (l.map f).Nodup) {x : α} {y : β} :
    l.find? (fun x => f x = y) = some x ↔ x ∈ l ∧ f x = y := by
  refine ⟨fun h => ⟨List.mem_of_find?_eq_some h, by simpa using List.find?_some h⟩, ?_⟩
  intro h
  obtain ⟨hx, rfl⟩ := h
  cases hf : l.find? (fun x' => f x' = f x) with
  | none => simpa using List.find?_eq_none.mp hf x hx
  | some x' =>
      have hfx : f x' = f x := by simpa using List.find?_some hf
      rw [List.inj_on_of_nodup_map hn (List.mem_of_find?_eq_some hf) hx hfx]

theorem TableKeys.findById_eq_some (h : TableKeys flags) :
    findById flags id = some row ↔ row ∈ flags ∧ row.id = id :=
  find?_field_eq_some h.ids

theorem TableKeys.findByKey_eq_some (h : TableKeys flags) :
    findByKey flags key = some row ↔ row ∈ flags ∧ row.key = key :=
  find?_field_eq_some h.keys

theorem findById_eq_none : findById flags id = none ↔ ∀ r ∈ flags, r.id ≠ id := by
  simp [findById]

theorem findByKey_eq_none : findByKey flags key = none ↔ ∀ r ∈ flags, r.key ≠ key := by
  simp [findByKey]

theorem mem_applyWrite_insert : r ∈ applyWrite flags (.insert row) ↔ r ∈ flags ∨ r = row := by
  simp [applyWrite]

theorem mem_applyWrite_delete :
    r ∈ applyWrite flags (.delete row) ↔ r ∈ flags ∧ r.id ≠ row.id := by
  simp [applyWrite]

/-- An update changes the row of its id and no other row. -/
theorem mem_applyWrite_update (hfit : RowWrite.Fits flags (.update row)) :
    r ∈ applyWrite flags (.update row) ↔ (r ∈ flags ∧ r.id ≠ row.id) ∨ r = row := by
  rw [applyWrite, List.mem_map]
  constructor
  · intro h
    obtain ⟨x, hx, rfl⟩ := h
    by_cases hid : x.id = row.id
    · exact Or.inr (if_pos hid)
    · rw [if_neg hid]
      exact Or.inl ⟨hx, hid⟩
  · intro hcase
    rcases hcase with ⟨hr, hid⟩ | rfl
    · exact ⟨r, hr, if_neg hid⟩
    · obtain ⟨x, hx, hid, -⟩ := hfit
      exact ⟨x, hx, if_pos hid⟩

end Lookup

/-! ### The table as a map from keys -/

/-- The table keyed by flag key, each row seen through `image`. -/
def keyMap {ν : Type*} (image : FlagRow → ν) (flags : List FlagRow) (key : String) : Option ν :=
  (findByKey flags key).map image

section KeyMap

variable {flags : List FlagRow} {row : FlagRow} {w : RowWrite}

/-- The updated list pairs every row with the row it was. -/
theorem map_applyWrite_update {β : Type*} (f : FlagRow → β)
    (hf : ∀ r ∈ flags, r.id = row.id → f row = f r) :
    (applyWrite flags (.update row)).map f = flags.map f := by
  rw [applyWrite, List.map_map]
  refine List.map_congr_left fun r hr => ?_
  by_cases hid : r.id = row.id
  · simp [hid, hf r hr hid]
  · simp [hid]

/-- An admitted write keeps both keys of the table. -/
theorem TableKeys.applyWrite (h : TableKeys flags) (hfit : w.Fits flags) :
    TableKeys (applyWrite flags w) := by
  cases w with
  | insert row =>
      constructor
      · rw [FlagPlane.applyWrite, List.map_append, List.nodup_append]
        refine ⟨h.ids, by simp, ?_⟩
        simpa using fun r hr => (hfit r hr).1
      · rw [FlagPlane.applyWrite, List.map_append, List.nodup_append]
        refine ⟨h.keys, by simp, ?_⟩
        simpa using fun r hr => (hfit r hr).2
  | update row =>
      obtain ⟨x, hx, hid, hkey⟩ := hfit
      constructor
      · rw [map_applyWrite_update _ (fun r _ hr => hr.symm)]
        exact h.ids
      · rw [map_applyWrite_update _ (fun r hr hrid => ?_)]
        · exact h.keys
        · rw [h.eq_of_id hr hx (hrid.trans hid.symm), hkey]
  | delete row =>
      exact ⟨List.Nodup.sublist (List.filter_sublist.map _) h.ids,
        List.Nodup.sublist (List.filter_sublist.map _) h.keys⟩
  | nothing => exact h

/-- **One write, by key.** An admitted write sets or removes the key of its row and
leaves every other key alone. -/
theorem TableKeys.findByKey_applyWrite (h : TableKeys flags) (hfit : w.Fits flags) :
    findByKey (FlagPlane.applyWrite flags w) = w.onKeys (findByKey flags) := by
  have h' := h.applyWrite hfit
  funext key
  ext r
  rw [h'.findByKey_eq_some]
  cases w with
  | insert row =>
      rw [mem_applyWrite_insert, RowWrite.onKeys, Function.update_apply]
      by_cases hk : key = row.key
      · subst hk
        simp only [if_true, Option.some.injEq]
        exact ⟨fun ⟨hr, hkey⟩ => (hr.resolve_left fun hr => (hfit r hr).2 hkey).symm,
          fun hr => ⟨Or.inr hr.symm, by rw [hr]⟩⟩
      · rw [if_neg hk, h.findByKey_eq_some]
        exact ⟨fun ⟨hr, hkey⟩ => ⟨hr.resolve_right fun hr => hk (by rw [← hkey, hr]), hkey⟩,
          fun ⟨hr, hkey⟩ => ⟨Or.inl hr, hkey⟩⟩
  | update row =>
      rw [mem_applyWrite_update hfit, RowWrite.onKeys, Function.update_apply]
      obtain ⟨x, hx, hid, hxkey⟩ := hfit
      by_cases hk : key = row.key
      · subst hk
        simp only [if_true, Option.some.injEq]
        refine ⟨fun ⟨hr, hkey⟩ => (hr.resolve_left fun ⟨hr, hne⟩ => hne ?_).symm,
          fun hr => ⟨Or.inr hr.symm, by rw [hr]⟩⟩
        rw [h.eq_of_key hr hx (hkey.trans hxkey.symm), hid]
      · rw [if_neg hk, h.findByKey_eq_some]
        refine ⟨fun ⟨hr, hkey⟩ =>
          ⟨(hr.resolve_right fun hr => hk (by rw [← hkey, hr])).1, hkey⟩,
          fun ⟨hr, hkey⟩ => ⟨Or.inl ⟨hr, fun hrid => hk ?_⟩, hkey⟩⟩
        rw [← hkey, h.eq_of_id hr hx (hrid.trans hid.symm), hxkey]
  | delete row =>
      rw [mem_applyWrite_delete, RowWrite.onKeys, Function.update_apply]
      by_cases hk : key = row.key
      · subst hk
        simp only [if_true, reduceCtorEq, iff_false]
        intro h
        obtain ⟨⟨hr, hne⟩, hkey⟩ := h
        exact hne (by rw [h.eq_of_key hr hfit hkey])
      · rw [if_neg hk, h.findByKey_eq_some]
        refine ⟨fun ⟨hr, hkey⟩ => ⟨hr.1, hkey⟩, fun ⟨hr, hkey⟩ => ⟨⟨hr, fun hrid => hk ?_⟩, hkey⟩⟩
        rw [← hkey, h.eq_of_id hr hfit hrid]
  | nothing => exact h.findByKey_eq_some.symm

/-- The rows after a write to `row`: at its key the row written, elsewhere the old rows. -/
theorem TableKeys.mem_applyWrite (h : TableKeys flags) (hfit : w.Fits flags)
    (hrow : w.row? = some row) {r : FlagRow} (hr : r ∈ FlagPlane.applyWrite flags w) :
    (r.key = row.key ∧ (w = .insert r ∨ w = .update r)) ∨ (r.key ≠ row.key ∧ r ∈ flags) := by
  have hfind := (h.applyWrite hfit).findByKey_eq_some.mpr ⟨hr, rfl⟩
  rw [h.findByKey_applyWrite hfit] at hfind
  by_cases hkey : r.key = row.key
  · refine Or.inl ⟨hkey, ?_⟩
    cases w with
    | insert row' =>
        obtain rfl := Option.some.inj hrow
        rw [hkey, RowWrite.onKeys, Function.update_self] at hfind
        exact Or.inl (congrArg _ (Option.some.inj hfind))
    | update row' =>
        obtain rfl := Option.some.inj hrow
        rw [hkey, RowWrite.onKeys, Function.update_self] at hfind
        exact Or.inr (congrArg _ (Option.some.inj hfind))
    | delete row' =>
        obtain rfl := Option.some.inj hrow
        rw [hkey, RowWrite.onKeys, Function.update_self] at hfind
        cases hfind
    | nothing => cases hrow
  · refine Or.inr ⟨hkey, ?_⟩
    have hold : findByKey flags r.key = some r := by
      cases w with
      | insert row' | update row' | delete row' =>
          obtain rfl := Option.some.inj hrow
          rwa [RowWrite.onKeys, Function.update_of_ne hkey] at hfind
      | nothing => cases hrow
    exact (h.findByKey_eq_some.mp hold).1

end KeyMap

end FlagPlane
