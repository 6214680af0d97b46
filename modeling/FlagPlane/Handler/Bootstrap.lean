import FlagPlane.Client.Go
import FlagPlane.Repository.LogReplay

/-!
# FlagPlane.Handler.Bootstrap

**`GetAllFlags` and `Bootstrap`.** The handler reads the flags in one query and the config
version in another, and the client takes the two as one snapshot: from then on it
only asks for events above that version. A write that commits between the queries is in
the version but not in the flags, and the client never hears of it again
(`tornBootstrap`).

`bootstrap_consistent_iff` says when a response is good, for any interleaving of the two
queries with any statements.
-/

namespace FlagPlane

/-! ### The response -/

/-- The handler's `clientFlag`, marshalled. -/
def clientFlagJson (f : Flag) : Json :=
  .obj [("id", .str f.id), ("key", .str f.key), ("description", .str f.description),
    ("enabled", .bool f.enabled), ("rollout_percentage", .int f.rolloutPercentage),
    ("targeted_users", .arr ((f.targetedUsers.getD []).map .str)), ("version", .int f.version)]

/-- `ClientHandler.GetAllFlags`: the body, from what `List` and `GetLatestVersion` returned. -/
def getAllFlags (flags : List Flag) (version : Int) : Json :=
  .obj [("config_version", .int version), ("flags", .arr (flags.map clientFlagJson))]

/-- The body as `Bootstrap` decodes it. -/
structure BootstrapBody where
  flags : List ClientFlag
  configVersion : Int

def unmarshalFlags : Json → Option (List ClientFlag)
  | .arr items => items.mapM unmarshalFlag
  | .null => some []
  | _ => none

def BootstrapBody.setField (name : String) (v : Json) (b : BootstrapBody) : Option BootstrapBody :=
  match name with
  | "flags" => (unmarshalFlags v).map fun flags => { b with flags := flags }
  | "config_version" => (Json.decodeInt b.configVersion v).map fun n =>
    { b with configVersion := n }
  | _ => some b

/-- `Client.Bootstrap`: the client after a response body, `none` when it does not decode. -/
def Client.bootstrapFrom (body : Json) : Option Client :=
  (Json.decodeStruct (⟨[], 0⟩ : BootstrapBody) BootstrapBody.setField body).map fun b =>
    Client.bootstrap b.flags b.configVersion

/-- The response when `List` runs at `db₁` and `GetLatestVersion` at `db₂`. -/
def bootstrapResponse (db₁ db₂ : Db) : Json :=
  getAllFlags (listFlags db₁.flags) (getLatestVersion db₂.events)

/-! ### The snapshot a client makes of it -/

/-- Setting flags with distinct keys one after another. -/
theorem bootstrap_flags {flags : List ClientFlag} (h : (flags.map ClientFlag.key).Nodup)
    (m : String → Option ClientFlag) (key : String) :
    flags.foldl (fun (m : String → Option ClientFlag) f => Function.update m f.key (some f)) m key =
      (flags.find? (fun f => f.key = key)).or (m key) := by
  induction flags generalizing m with
  | nil => rfl
  | cons f flags ih =>
      rw [List.map_cons, List.nodup_cons] at h
      rw [List.foldl_cons, ih h.2, List.find?_cons]
      by_cases hkey : f.key = key
      · subst hkey
        have hnone : flags.find? (fun g => g.key = f.key) = none := by
          rw [List.find?_eq_none]
          intro g hg hgk
          exact h.1 (List.mem_map.mpr ⟨g, hg, of_decide_eq_true hgk⟩)
        simp [hnone]
      · simp [hkey, Function.update_of_ne (Ne.symm hkey)]

theorem inInt64_of_columnsOk {r : FlagRow} (h : r.columnsOk = true) :
    Json.InInt64 r.rolloutPercentage := by
  simp only [FlagRow.columnsOk, Bool.and_eq_true, decide_eq_true_eq] at h
  obtain ⟨⟨-, hp⟩, -⟩ := h
  exact ⟨by omega, by omega⟩

/-- The client's view of log and table. -/
def clientView : View ClientFlag where
  decode := unmarshalFlag
  image := clientFlag
  decode_payload r hok h₀ hmax :=
    unmarshalFlag_payload (inInt64_of_columnsOk (r := r.stored) hok) (inInt64_of_version h₀ hmax)
  image_version _ _ h := congrArg ClientFlag.version h
  image_description _ _ h := congrArg ClientFlag.description h

theorem unmarshalFlag_clientFlagJson {r : FlagRow} (hp : Json.InInt64 r.rolloutPercentage)
    (hv : Json.InInt64 r.version) :
    unmarshalFlag (clientFlagJson (scanFlag r)) = some (clientFlag r) := by
  simp (disch := decide) [unmarshalFlag, clientFlagJson, scanFlag, clientFlag, Json.decodeStruct,
    ClientFlag.setField, ClientFlag.zero, Json.decodeInt_int hp, Json.decodeInt_int hv,
    Json.foldName_of_plain]

theorem unmarshalFlags_rows {rows : List FlagRow}
    (h : ∀ r ∈ rows, unmarshalFlag (clientFlagJson (scanFlag r)) = some (clientFlag r)) :
    unmarshalFlags (.arr ((rows.map scanFlag).map clientFlagJson)) =
      some (rows.map clientFlag) := by
  rw [unmarshalFlags, List.mapM_map, List.mapM_map]
  exact mapM_eq_some_map h

/-- The snapshot does not depend on the order `List` sorts the rows in. -/
theorem find?_clientFlag {rows rows' : List FlagRow} (h : TableKeys rows) (hp : rows'.Perm rows)
    (key : String) :
    (rows'.map clientFlag).find? (fun f => f.key = key) = keyMap clientFlag rows key := by
  have hnodup : ((rows'.map clientFlag).map ClientFlag.key).Nodup := by
    rw [List.map_map]
    exact (hp.map FlagRow.key).nodup_iff.mpr h.keys
  ext f
  rw [find?_field_eq_some hnodup, keyMap, Option.map_eq_some_iff, List.mem_map]
  constructor
  · intro h
    obtain ⟨⟨r, hr, rfl⟩, hkey⟩ := h
    exact ⟨r, h.findByKey_eq_some.mpr ⟨hp.mem_iff.mp hr, hkey⟩, rfl⟩
  · intro h
    obtain ⟨r, hr, rfl⟩ := h
    obtain ⟨hmem, hkey⟩ := h.findByKey_eq_some.mp hr
    exact ⟨⟨r, hp.mem_iff.mpr hmem, rfl⟩, hkey⟩

/-- **What the client makes of a response**: the table as `List` saw it, at the version that
`GetLatestVersion` saw. -/
theorem bootstrapFrom_response {db₁ db₂ : Db} (h₁ : DbInv db₁) (h₂ : DbInv db₂) :
    Client.bootstrapFrom (bootstrapResponse db₁ db₂) =
      some ⟨clientView.table db₁, getLatestVersion db₂.events⟩ := by
  have hperm : (db₁.flags.insertionSort fun a b => b.createdAt ≤ a.createdAt).Perm db₁.flags :=
    List.perm_insertionSort _ _
  generalize hrows : db₁.flags.insertionSort (fun a b => b.createdAt ≤ a.createdAt) = rows at hperm
  have hdecode : unmarshalFlags (.arr ((rows.map scanFlag).map clientFlagJson)) =
      some (rows.map clientFlag) := by
    refine unmarshalFlags_rows fun r hr => ?_
    have hmem := hperm.mem_iff.mp hr
    obtain ⟨h₀, hmax⟩ := h₁.row_version_bounds hmem
    exact unmarshalFlag_clientFlagJson (inInt64_of_columnsOk (h₁.columns r hmem))
      (inInt64_of_version h₀ hmax)
  rw [List.map_map] at hdecode
  have hversion := inInt64_of_version h₂.latest_bounds.1 h₂.latest_bounds.2
  have hnodup : ((rows.map clientFlag).map ClientFlag.key).Nodup := by
    rw [List.map_map]
    exact (hperm.map FlagRow.key).nodup_iff.mpr h₁.table.keys
  have hbody : Json.decodeStruct (⟨[], 0⟩ : BootstrapBody) BootstrapBody.setField
      (bootstrapResponse db₁ db₂) = some ⟨rows.map clientFlag, getLatestVersion db₂.events⟩ := by
    simp (disch := decide) [bootstrapResponse, getAllFlags, listFlags, hrows, Json.decodeStruct,
      BootstrapBody.setField, Json.foldName_of_plain, Json.decodeInt_int hversion, hdecode]
  rw [Client.bootstrapFrom, hbody, Option.map_some]
  refine congrArg some (congrArg (Client.mk · _) (funext fun key => ?_))
  rw [bootstrap_flags hnodup, find?_clientFlag h₁.table hperm, Option.or_none]
  rfl

/-! ### When the response is consistent -/

/-- Every event up to the client's version is in its flags: they are what replaying those
events over the rows of migration 002 gives. -/
def Reflects (rows : List FlagRow) (c : Client) (events : List FlagEvent) : Prop :=
  replay (keyMap clientFlag rows) (upTo c.configVersion (clientView.entries events)) = c.flags

/-- The client that replays the events above its version arrives at the current table. -/
def FollowsTable (c : Client) (db : Db) : Prop :=
  Reaches clientView c.flags c.configVersion db

/-! ### What a run does to the rows -/

/-- A commit of the run has inserted, updated or deleted the row of this id. -/
def WroteRow (id : String) (trs : List (Transition Db Action)) : Prop :=
  ∃ tr ∈ trs, ∃ cm row, tr.pre.committing tr.act = some cm ∧ cm.write.row? = some row ∧ row.id = id

/-- What a run from `db₁` keeps. -/
structure SinceList (db₁ : Db) (trs : List (Transition Db Action)) (db : Db) : Prop where
  inv : DbInv db
  events : ∀ e ∈ db₁.events, e ∈ db.events
  old : ∀ r ∈ db.flags, ¬ WroteRow r.id trs → r ∈ db₁.flags
  kept : ∀ r ∈ db₁.flags, ¬ WroteRow r.id trs → r ∈ db.flags
  /-- A row that has been written is at a version that no row was at before. -/
  newer : ∀ r ∈ db.flags, WroteRow r.id trs → ∀ r₁ ∈ db₁.flags, r.version ≠ r₁.version

section SinceList

variable {db₁ db db' : Db} {trs : List (Transition Db Action)} {a : Action} {id : String}

theorem wroteRow_append : WroteRow id (trs ++ [⟨db, a, db'⟩]) ↔ WroteRow id trs ∨
    ∃ cm row, db.committing a = some cm ∧ cm.write.row? = some row ∧ row.id = id := by
  simp only [WroteRow, List.mem_append, List.mem_singleton, or_and_right, exists_or,
    exists_eq_left]

theorem SinceList.start (h : DbInv db₁) : SinceList db₁ [] db₁ where
  inv := h
  events _ he := he
  old _ hr _ := hr
  kept _ hr _ := hr
  newer _ _ hwrote := by simp [WroteRow] at hwrote

/-- A row of the table that a write is about has the key of the row written. -/
theorem RowWrite.Fits.key_eq {flags : List FlagRow} {w : RowWrite} {row r : FlagRow}
    (hfit : w.Fits flags) (htable : TableKeys flags) (hrow : w.row? = some row) (hr : r ∈ flags)
    (hid : r.id = row.id) : r.key = row.key := by
  cases w with
  | insert row' =>
      obtain rfl := Option.some.inj hrow
      exact absurd hid (hfit r hr).1
  | update row' =>
      obtain rfl := Option.some.inj hrow
      obtain ⟨r', hr', hid', hkey⟩ := hfit
      rw [htable.eq_of_id hr hr' (hid.trans hid'.symm), hkey]
  | delete row' =>
      obtain rfl := Option.some.inj hrow
      rw [htable.eq_of_id hr hfit hid]
  | nothing => cases hrow

theorem SinceList.step (h₁ : DbInv db₁) (h : SinceList db₁ trs db)
    (hs : FlagPlane.step db a = some db') : SinceList db₁ (trs ++ [⟨db, a, db'⟩]) db' := by
  rcases step_tables hs with ⟨hnone, hflags, hevents⟩ | ⟨t, c, rfl, ht, hc, rfl⟩
  · have hsame : ∀ id, WroteRow id (trs ++ [⟨db, a, db'⟩]) ↔ WroteRow id trs := by
      simp [wroteRow_append, hnone]
    refine ⟨h.inv.step hs, fun e he => hevents ▸ h.events e he, ?_, ?_, ?_⟩
    all_goals simp only [hflags, hsame]
    · exact h.old
    · exact h.kept
    · exact h.newer
  have hwrote : ∀ id, WroteRow id (trs ++ [⟨db, .commit t, db.committed t c⟩]) ↔
      WroteRow id trs ∨ ∃ row, c.write.row? = some row ∧ row.id = id := by
    simp [wroteRow_append, hc]
  have hfit := h.inv.write_fits ht
  have hnew : ∀ r, c.write = .insert r ∨ c.write = .update r →
      ∃ row, c.write.row? = some row ∧ row.id = r.id := by
    rintro r (hw | hw) <;> exact ⟨r, by rw [hw]; rfl, rfl⟩
  refine ⟨h.inv.step hs, fun e he => step_events hs (h.events e he), ?_, ?_, ?_⟩
  · intro r hr hnot
    rw [hwrote, not_or] at hnot
    rcases mem_of_mem_applyWrite hfit hr with hr | hw
    · exact h.old r hr hnot.1
    · exact absurd (hnew r hw) hnot.2
  · intro r hr hnot
    rw [hwrote, not_or] at hnot
    exact mem_applyWrite_of_ne hfit (h.kept r hr hnot.1) fun row hrow hid =>
      hnot.2 ⟨row, hrow, hid.symm⟩
  · intro r hr hw r₁ hr₁
    have hfresh : c.write = .insert r ∨ c.write = .update r → r.version ≠ r₁.version := by
      intro hw
      obtain ⟨hpos, hne⟩ := h.inv.version_new ht
      rw [((h.inv.writeInv ht).rowEvent hw).1]
      rcases h₁.rowEvent r₁ hr₁ with hzero | ⟨e, he, hv, -⟩
      · omega
      · rw [← hv]
        exact (hne e (h.events e he)).symm
    rcases (hwrote r.id).mp hw with hw | ⟨row, hrow, hid⟩
    · rcases mem_of_mem_applyWrite hfit hr with hr | hnow
      · exact h.newer r hr hw r₁ hr₁
      · exact hfresh hnow
    · rcases h.inv.table.mem_applyWrite hfit hrow hr with ⟨-, hnow⟩ | ⟨hkey, hr⟩
      · exact hfresh hnow
      · exact absurd (hfit.key_eq h.inv.table hrow hr hid.symm) hkey

/-- The client's view shows rows of one id and version alike only. -/
theorem clientView_table_mem {db db' : Db} (h : DbInv db) (h' : DbInv db')
    (heq : clientView.table db = clientView.table db') {r : FlagRow} (hr : r ∈ db.flags) :
    ∃ r' ∈ db'.flags, r'.id = r.id ∧ r'.version = r.version := by
  have hat := congrFun heq r.key
  rw [View.table, View.table, keyMap, keyMap, h.table.findByKey_eq_some.mpr ⟨hr, rfl⟩] at hat
  obtain ⟨r', hr', himage⟩ := Option.map_eq_some_iff.mp hat.symm
  exact ⟨r', (h'.table.findByKey_eq_some.mp hr').1, congrArg ClientFlag.id himage,
    congrArg ClientFlag.version himage⟩

/-- **The table at two moments.** It is the same exactly when every row written in between was
there at neither. -/
theorem SinceList.table_eq_iff (h₁ : DbInv db₁) (h : SinceList db₁ trs db) :
    clientView.table db₁ = clientView.table db ↔
      ∀ id, WroteRow id trs → (∀ r ∈ db₁.flags, r.id ≠ id) ∧ ∀ r ∈ db.flags, r.id ≠ id := by
  constructor
  · intro heq id hwrote
    constructor
    · rintro r₁ hr₁ rfl
      obtain ⟨r, hr, hid, hv⟩ := clientView_table_mem h₁ h.inv heq hr₁
      exact h.newer r hr (hid ▸ hwrote) r₁ hr₁ hv
    · rintro r hr rfl
      obtain ⟨r₁, hr₁, -, hv⟩ := clientView_table_mem h.inv h₁ heq.symm hr
      exact h.newer r hr hwrote r₁ hr₁ hv.symm
  · intro hgone
    have hmem : ∀ r, r ∈ db₁.flags ↔ r ∈ db.flags := fun r =>
      ⟨fun hr => h.kept r hr fun hwrote => (hgone _ hwrote).1 r hr rfl,
        fun hr => h.old r hr fun hwrote => (hgone _ hwrote).2 r hr rfl⟩
    have hfind : findByKey db₁.flags = findByKey db.flags := by
      funext key
      ext r
      rw [h₁.table.findByKey_eq_some, h.inv.table.findByKey_eq_some, hmem]
    funext key
    rw [View.table, View.table, keyMap, keyMap, hfind]

end SinceList

section Consistent

variable {rows : List FlagRow} {as₁ as₂ : List Action} {db₁ db₂ : Db}

/-- At the second query nothing is above the version it returns. -/
theorem above_latest (events : List FlagEvent) :
    above (getLatestVersion events) (clientView.entries events) = [] := by
  rw [above, List.filter_eq_nil_iff]
  intro x hx
  obtain ⟨e, he, rfl⟩ := List.mem_map.mp hx
  rw [decide_eq_true_eq, not_lt]
  exact le_getLatestVersion he

theorem upTo_latest (events : List FlagEvent) :
    upTo (getLatestVersion events) (clientView.entries events) = clientView.entries events := by
  rw [upTo, List.filter_eq_self]
  intro x hx
  obtain ⟨e, he, rfl⟩ := List.mem_map.mp hx
  exact decide_eq_true (le_getLatestVersion he)

/-- When every commit so far has been on top, the log replays to the table. -/
theorem reaches_of_onTop (hrows : Migrated rows)
    (htop : ∀ tr ∈ transitions step (Db.migrated rows) as₁, ∀ cm,
      tr.pre.committing tr.act = some cm → cm.OnTopOf 0 tr.pre)
    (hrun : exec step (Db.migrated rows) as₁ = some db₁) :
    replay (keyMap clientFlag rows) (clientView.entries db₁.events) = clientView.table db₁ := by
  have hstep : ∀ {db a db'}, (DbInv db ∧ Reaches clientView (keyMap clientFlag rows) 0 db) →
      (∀ cm, db.committing a = some cm → cm.OnTopOf 0 db) → step db a = some db' →
      DbInv db' ∧ Reaches clientView (keyMap clientFlag rows) 0 db' := by
    rintro db a db' ⟨h, hm⟩ hon hs
    exact ⟨h.step hs, (Reaches.step_iff h hm hs).mpr hon⟩
  obtain ⟨hinv, hreaches⟩ := exec_preserves_of hstep ⟨hrows.dbInv, rfl⟩ htop hrun
  rw [Reaches, above, List.filter_eq_self.mpr] at hreaches
  · exact hreaches
  · intro x hx
    obtain ⟨e, he, rfl⟩ := List.mem_map.mp hx
    exact decide_eq_true (hinv.eventBound e he).1

/-- The client of a response, when the log replays to the table at the second query. -/
theorem snapshot_consistent_iff (hinv₁ : DbInv db₁) (h₂ : exec step db₁ as₂ = some db₂)
    (hlog : replay (keyMap clientFlag rows) (clientView.entries db₂.events) = clientView.table db₂)
    (as₃ : List Action) {c : Client}
    (hc : c = ⟨clientView.table db₁, getLatestVersion db₂.events⟩) :
    (Reflects rows c db₂.events ∧ FollowsTable c db₂ ∧
        ∀ tr ∈ transitions step db₂ as₃, FollowsTable c tr.post) ↔
      (∀ id, WroteRow id (transitions step db₁ as₂) →
          (∀ r ∈ db₁.flags, r.id ≠ id) ∧ ∀ r ∈ db₂.flags, r.id ≠ id) ∧
        ∀ tr ∈ transitions step db₂ as₃, ∀ cm, tr.pre.committing tr.act = some cm →
          cm.OnTopOf (getLatestVersion db₂.events) tr.pre := by
  subst hc
  have hinv₂ : DbInv db₂ := exec_preserves (fun h hs => DbInv.step h hs) hinv₁ h₂
  have hsince : SinceList db₁ (transitions step db₁ as₂) db₂ :=
    exec_history (fun h hs => SinceList.step hinv₁ h hs) (SinceList.start hinv₁) h₂
  rw [← hsince.table_eq_iff hinv₁]
  have hreflects : Reflects rows ⟨clientView.table db₁, getLatestVersion db₂.events⟩ db₂.events ↔
      clientView.table db₁ = clientView.table db₂ := by
    rw [Reflects, upTo_latest, hlog]
    exact eq_comm
  have hnow : FollowsTable ⟨clientView.table db₁, getLatestVersion db₂.events⟩ db₂ ↔
      clientView.table db₁ = clientView.table db₂ := by
    rw [FollowsTable, Reaches, above_latest]
    rfl
  have hlater : FollowsTable ⟨clientView.table db₁, getLatestVersion db₂.events⟩ db₂ →
      ((∀ tr ∈ transitions step db₂ as₃,
          FollowsTable ⟨clientView.table db₁, getLatestVersion db₂.events⟩ tr.post) ↔
        ∀ tr ∈ transitions step db₂ as₃, ∀ cm, tr.pre.committing tr.act = some cm →
          cm.OnTopOf (getLatestVersion db₂.events) tr.pre) := fun hstart =>
    transitions_iff (Q := fun _ _ db' => FollowsTable _ db')
      (C := fun db a => ∀ cm, db.committing a = some cm → cm.OnTopOf _ db)
      (fun h hs => DbInv.step h hs) (fun h hm hs => Reaches.step_iff h hm hs)
      (fun h hm hs hC => (Reaches.step_iff h hm hs).mpr hC) hinv₂ hstart
  constructor
  · intro h
    obtain ⟨-, hfollows, hall⟩ := h
    exact ⟨hnow.mp hfollows, (hlater hfollows).mp hall⟩
  · intro h
    obtain ⟨hsame, hall⟩ := h
    have hfollows := hnow.mpr hsame
    exact ⟨hreflects.mpr hsame, hfollows, (hlater hfollows).mpr hall⟩

/-- **The response of `GetAllFlags`.** `List` runs at `db₁` and `GetLatestVersion` at `db₂`,
anything may happen before, between and after, as long as every commit before the second query
is on top of its key. The response decodes; and it reflects every event up to its version and
leads to the table in every later state exactly when every row written between the queries was
in the table at neither, and every later commit is on top of the version returned. -/
theorem bootstrap_consistent_iff (hrows : Migrated rows)
    (h₁ : exec step (Db.migrated rows) as₁ = some db₁) (h₂ : exec step db₁ as₂ = some db₂)
    (as₃ : List Action)
    (htop : ∀ tr ∈ transitions step (Db.migrated rows) (as₁ ++ as₂), ∀ cm,
      tr.pre.committing tr.act = some cm → cm.OnTopOf 0 tr.pre) :
    ∃ c, Client.bootstrapFrom (bootstrapResponse db₁ db₂) = some c ∧
      ((Reflects rows c db₂.events ∧ FollowsTable c db₂ ∧
          ∀ tr ∈ transitions step db₂ as₃, FollowsTable c tr.post) ↔
        (∀ id, WroteRow id (transitions step db₁ as₂) →
          (∀ r ∈ db₁.flags, r.id ≠ id) ∧ ∀ r ∈ db₂.flags, r.id ≠ id) ∧
        ∀ tr ∈ transitions step db₂ as₃, ∀ cm, tr.pre.committing tr.act = some cm →
          cm.OnTopOf (getLatestVersion db₂.events) tr.pre) := by
  have hinv₁ : DbInv db₁ := DbInv.of_exec hrows h₁
  have hinv₂ : DbInv db₂ := exec_preserves (fun h hs => DbInv.step h hs) hinv₁ h₂
  have hlog := reaches_of_onTop hrows htop (exec_append_eq_some.mpr ⟨db₁, h₁, h₂⟩)
  exact ⟨_, bootstrapFrom_response hinv₁ hinv₂, snapshot_consistent_iff hinv₁ h₂ hlog as₃ rfl⟩

/-- A toggle commits before the first query. -/
def beforeList : List Action :=
  [.call 1 (.toggle "u"), .begin 1 1, .nextval 1, .scan 1, .lock 1, .appendEvent 1, .commit 1,
    .call 2 (.toggle "u")]

/-- Another one is under way between the queries. -/
def betweenQueries : List Action := [.begin 2 2, .nextval 2, .scan 2]

def afterQueries : List Action := [.lock 2, .appendEvent 2, .commit 2]

theorem bootstrap_consistent_iff_toggles :
    ∃ db₁ db₂, exec step (Db.migrated [checkoutRow]) beforeList = some db₁ ∧
      exec step db₁ betweenQueries = some db₂ ∧
      ∃ c, Client.bootstrapFrom (bootstrapResponse db₁ db₂) = some c ∧
        ((Reflects [checkoutRow] c db₂.events ∧ FollowsTable c db₂ ∧
            ∀ tr ∈ transitions step db₂ afterQueries, FollowsTable c tr.post) ↔
          (∀ id, WroteRow id (transitions step db₁ betweenQueries) →
            (∀ r ∈ db₁.flags, r.id ≠ id) ∧ ∀ r ∈ db₂.flags, r.id ≠ id) ∧
          ∀ tr ∈ transitions step db₂ afterQueries, ∀ cm, tr.pre.committing tr.act = some cm →
            cm.OnTopOf (getLatestVersion db₂.events) tr.pre) := by
  have hrun : ((exec step (Db.migrated [checkoutRow]) beforeList).bind fun db₁ =>
      (exec step db₁ betweenQueries).map fun _ => true) = some true := by
    decide
  have htop : ((transitions step (Db.migrated [checkoutRow])
      (beforeList ++ betweenQueries)).all fun tr =>
        (tr.pre.committing tr.act).all fun cm => decide (cm.OnTopOf 0 tr.pre)) = true := by
    decide
  obtain ⟨db₁, h₁, hrun⟩ := Option.bind_eq_some_iff.mp hrun
  obtain ⟨db₂, h₂, -⟩ := Option.map_eq_some_iff.mp hrun
  refine ⟨db₁, db₂, h₁, h₂, bootstrap_consistent_iff migrated_checkoutRow h₁ h₂ afterQueries ?_⟩
  intro tr htr cm hcm
  have hon := List.all_eq_true.mp htop tr htr
  rw [hcm] at hon
  exact of_decide_eq_true hon

/-- `checkout` is created between the two queries: the response says version 1 and has no flag. -/
theorem tornBootstrap :
    ∃ db c, exec step (Db.migrated []) createCheckout = some db ∧
      Client.bootstrapFrom (bootstrapResponse (Db.migrated []) db) = some c ∧
      c.configVersion = 1 ∧ ¬ Reflects [] c db.events ∧ ¬ FollowsTable c db := by
  have hrun : ((exec step (Db.migrated []) createCheckout).bind fun db =>
      (Client.bootstrapFrom (bootstrapResponse (Db.migrated []) db)).map fun c =>
        (c.configVersion,
          decide (replay (keyMap clientFlag [])
              (upTo c.configVersion (clientView.entries db.events)) "checkout" ≠ c.flags "checkout" ∧
            replay c.flags (above c.configVersion (clientView.entries db.events)) "checkout" ≠
              clientView.table db "checkout"))) = some (1, true) := by
    decide
  obtain ⟨db, hdb, hrun⟩ := Option.bind_eq_some_iff.mp hrun
  obtain ⟨c, hc, hall⟩ := Option.map_eq_some_iff.mp hrun
  obtain ⟨hversion, hne⟩ := Prod.mk.inj hall
  obtain ⟨hreflects, hfollows⟩ := of_decide_eq_true hne
  exact ⟨db, c, hdb, hc, hversion, fun h => hreflects (congrFun h _),
    fun h => hfollows (congrFun h _)⟩

/-! ### Commits in version order -/

/-- A commit above everything in the log, by a transaction that wrote a row and had no text of it
cut. -/
def InVersionOrder (db : Db) (a : Action) : Prop :=
  ∀ c, db.committing a = some c →
    c.write ≠ .nothing ∧ (∀ e ∈ db.events, e.version < c.locals.version) ∧ c.op.Uncut

theorem InVersionOrder.onTopOf {db : Db} {a : Action} {c : Commit} {v : Int}
    (h : InVersionOrder db a) (hc : db.committing a = some c) (hv : v < c.locals.version) :
    c.OnTopOf v db := by
  obtain ⟨hne, htop, hcut⟩ := h c hc
  rw [Commit.OnTopOf]
  cases hw : c.write with
  | insert row | update row | delete row => exact ⟨⟨hv, fun e he _ => htop e he⟩, hcut⟩
  | nothing => exact absurd hw hne

/-- **In version order it all hangs on the two queries.** When every commit is above everything
committed before it, the response is consistent exactly when every row written between `List` and
`GetLatestVersion` was in the table at neither. -/
theorem bootstrap_consistent_in_order (hrows : Migrated rows)
    (h₁ : exec step (Db.migrated rows) as₁ = some db₁) (h₂ : exec step db₁ as₂ = some db₂)
    (as₃ : List Action)
    (horder : ∀ tr ∈ transitions step (Db.migrated rows) (as₁ ++ as₂ ++ as₃),
      InVersionOrder tr.pre tr.act) :
    ∃ c, Client.bootstrapFrom (bootstrapResponse db₁ db₂) = some c ∧
      ((Reflects rows c db₂.events ∧ FollowsTable c db₂ ∧
          ∀ tr ∈ transitions step db₂ as₃, FollowsTable c tr.post) ↔
        ∀ id, WroteRow id (transitions step db₁ as₂) →
          (∀ r ∈ db₁.flags, r.id ≠ id) ∧ ∀ r ∈ db₂.flags, r.id ≠ id) := by
  have hinv₁ : DbInv db₁ := DbInv.of_exec hrows h₁
  have hinv₂ : DbInv db₂ := exec_preserves (fun h hs => DbInv.step h hs) hinv₁ h₂
  have hrun : exec step (Db.migrated rows) (as₁ ++ as₂) = some db₂ :=
    exec_append_eq_some.mpr ⟨db₁, h₁, h₂⟩
  rw [transitions_append hrun, List.forall_mem_append] at horder
  have htop : ∀ tr ∈ transitions step (Db.migrated rows) (as₁ ++ as₂), ∀ cm,
      tr.pre.committing tr.act = some cm → cm.OnTopOf 0 tr.pre := by
    intro tr htr cm hcm
    obtain ⟨t, -, ht⟩ := committing_eq_some.mp hcm
    have hinv := (transitions_preserves (fun h hs => DbInv.step h hs) hrows.dbInv htr).1
    exact (horder.1 tr htr).onTopOf hcm (hinv.version_new ht).1
  refine ⟨_, bootstrapFrom_response hinv₁ hinv₂, ?_⟩
  rw [snapshot_consistent_iff hinv₁ h₂ (reaches_of_onTop hrows htop hrun) as₃ rfl]
  refine and_iff_left fun tr htr cm hcm => (horder.2 tr htr).onTopOf hcm ?_
  obtain ⟨t, -, ht⟩ := committing_eq_some.mp hcm
  have hkeep : ∀ {db a db'}, (DbInv db ∧ ∀ e ∈ db₂.events, e ∈ db.events) → step db a = some db' →
      DbInv db' ∧ ∀ e ∈ db₂.events, e ∈ db'.events := fun h hs =>
    ⟨h.1.step hs, fun e he => step_events hs (h.2 e he)⟩
  obtain ⟨hinv, hevents⟩ := (transitions_preserves hkeep ⟨hinv₂, fun _ he => he⟩ htr).1
  by_cases hempty : db₂.events = []
  · rw [hempty]
    exact (hinv.version_new ht).1
  · obtain ⟨e, he, hv⟩ := getLatestVersion_mem hempty
    rw [← hv]
    exact (horder.2 tr htr cm hcm).2.1 e (hevents e he)

end Consistent

end FlagPlane
