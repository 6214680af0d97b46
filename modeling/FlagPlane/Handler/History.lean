import FlagPlane.Client.Responses
import FlagPlane.Handler.Admin
import FlagPlane.Repository.LogReplay
import FlagPlane.Uuid

/-!
# FlagPlane.Handler.History

**`GET /api/admin/flags/{id}/events`**, from which the flag page draws its history:
`AdminHandler.GetFlagHistory` over `GetByID` and `ListEventsByFlag`. Anything may commit between the
two queries, and the second one goes by the key that the first one has found; `history_page` says
what is left to rely on.

The page lists the newest *version* first, and a version is drawn before the row lock is taken. So
the first entry need not be the flag as it is: `history_shows_flags_iff` has the commits that keep
it so.
-/

namespace FlagPlane

/-! ### The handler -/

/-- The row cap of `ListEventsByFlag`. -/
def eventsByFlagLimit (limit : Int) : Nat :=
  if limit ≤ 0 then 50 else if limit > 200 then 200 else limit.toNat

/-- The events of a key, newest first. -/
def newestFirst (events : List FlagEvent) (flagKey : String) : List FlagEvent :=
  (events.filter fun e => e.flagKey = flagKey).insertionSort fun a b => b.version ≤ a.version

/-- `postgresRepo.ListEventsByFlag`: `WHERE flag_key = $1 ORDER BY version DESC LIMIT …`. -/
def listEventsByFlag (events : List FlagEvent) (flagKey : String) (limit : Int) : List FlagEvent :=
  (newestFirst events flagKey).take (eventsByFlagLimit limit)

/-- `flagService.GetFlagHistory`, when `GetByID` reads `db₁` and `ListEventsByFlag` reads `db₂`. -/
def getFlagHistory (db₁ db₂ : Db) (id : String) (limit : Int) : Option (List FlagEvent) :=
  (getByID db₁.flags id).map fun flag => listEventsByFlag db₂.events flag.key limit

/-- `json.Marshal` of a `model.FlagEvent`. How a `time.Time` is written is left open. -/
def FlagEvent.toJson (marshalTime : Timestamp → String) (e : FlagEvent) : Json :=
  .obj [("version", .int e.version), ("event_type", .str e.eventType.name),
    ("flag_key", .str e.flagKey), ("payload", e.payload),
    ("created_at", .str (marshalTime e.createdAt))]

/-- The answer that carries a history. -/
def historyResponse (marshalTime : Timestamp → String) (page : List FlagEvent) : HttpResponse :=
  ⟨200, some (.obj [("events", .arr (page.map (FlagEvent.toJson marshalTime)))])⟩

/-- `GetFlagHistory` when a query has failed. -/
def historyFailed : HttpResponse :=
  writeError 500 "internal_error" "Failed to get flag history"

/-- `AdminHandler.GetFlagHistory`, with a text for the id, when no query fails but by that. -/
def flagHistoryResponse (marshalTime : Timestamp → String) (db₁ db₂ : Db) (text : String) :
    HttpResponse :=
  match readUuid text with
  | none => historyFailed
  | some id =>
    match getFlagHistory db₁ db₂ id 50 with
    | none => notFoundResponse
    | some page => historyResponse marshalTime page

/-- The newest events of a key, newest first, and no more than 50. -/
structure HistoryPage (events : List FlagEvent) (flagKey : String) (page : List FlagEvent) :
    Prop where
  newestFirst : page.Pairwise fun a b => b.version < a.version
  ofFlag : ∀ e ∈ page, e ∈ events ∧ e.flagKey = flagKey
  length : page.length ≤ 50
  /-- What is left out is older than all that is there, and nothing is left out of a short page. -/
  complete : ∀ e ∈ events, e.flagKey = flagKey → e ∉ page →
    page.length = 50 ∧ ∀ x ∈ page, e.version < x.version

section Page

variable {events page : List FlagEvent} {flagKey id : String} {e : FlagEvent} {db db₁ db₂ : Db}
  {r : FlagRow}

theorem newestFirst_perm (events : List FlagEvent) (flagKey : String) :
    (newestFirst events flagKey).Perm (events.filter fun e => e.flagKey = flagKey) :=
  List.perm_insertionSort _ _

theorem mem_newestFirst : e ∈ newestFirst events flagKey ↔ e ∈ events ∧ e.flagKey = flagKey := by
  rw [(newestFirst_perm events flagKey).mem_iff]
  simp

/-- No two events of a log have one version, so the order is strict. -/
theorem pairwise_newestFirst (h : (events.map FlagEvent.version).Nodup) (flagKey : String) :
    (newestFirst events flagKey).Pairwise fun a b => b.version < a.version := by
  have : Std.Total fun a b : FlagEvent => b.version ≤ a.version :=
    ⟨fun a b => le_total b.version a.version⟩
  have : IsTrans FlagEvent fun a b => b.version ≤ a.version := ⟨fun _ _ _ h₁ h₂ => le_trans h₂ h₁⟩
  have hsorted : (newestFirst events flagKey).Pairwise fun a b => b.version ≤ a.version :=
    List.pairwise_insertionSort _ _
  have hnodup : ((newestFirst events flagKey).map FlagEvent.version).Nodup :=
    ((newestFirst_perm events flagKey).map _).nodup_iff.mpr
      (h.sublist (List.filter_sublist.map _))
  have hne := List.pairwise_map.mp hnodup
  exact (hsorted.and hne).imp fun hab => lt_of_le_of_ne hab.1 hab.2.symm

theorem historyPage (h : (events.map FlagEvent.version).Nodup) (flagKey : String) :
    HistoryPage events flagKey (listEventsByFlag events flagKey 50) := by
  have hsorted := pairwise_newestFirst h flagKey
  refine ⟨hsorted.sublist (List.take_sublist _ _), fun e he => ?_, List.length_take_le _ _,
    fun e he hkey hnot => ?_⟩
  · exact mem_newestFirst.mp (List.mem_of_mem_take he)
  · have hmem : e ∈ newestFirst events flagKey := mem_newestFirst.mpr ⟨he, hkey⟩
    rw [← List.take_append_drop 50 (newestFirst events flagKey)] at hmem hsorted
    have hrest : e ∈ (newestFirst events flagKey).drop 50 :=
      (List.mem_append.mp hmem).resolve_left hnot
    rw [List.pairwise_append] at hsorted
    refine ⟨?_, fun x hx => hsorted.2.2 x hx e hrest⟩
    have hlong : 0 < ((newestFirst events flagKey).drop 50).length :=
      List.length_pos_of_mem hrest
    rw [List.length_drop] at hlong
    show ((newestFirst events flagKey).take 50).length = 50
    rw [List.length_take]
    omega

/-- The first entry is no older than any event of the key. -/
theorem HistoryPage.head (h : HistoryPage events flagKey page) (he : e ∈ events)
    (hkey : e.flagKey = flagKey) : ∃ x, page.head? = some x ∧ e.version ≤ x.version := by
  cases page with
  | nil =>
      obtain ⟨hlength, -⟩ := h.complete e he hkey (by simp)
      cases hlength
  | cons x page =>
      refine ⟨x, rfl, ?_⟩
      by_cases hmem : e ∈ x :: page
      · rcases List.mem_cons.mp hmem with rfl | hmem
        · exact le_refl _
        · exact ((List.pairwise_cons.mp h.newestFirst).1 e hmem).le
      · exact ((h.complete e he hkey hmem).2 x List.mem_cons_self).le

/-- Which page is drawn from: the key that `GetByID` has found. -/
theorem DbInv.getFlagHistory (h : DbInv db₁) (hr : r ∈ db₁.flags) (db₂ : Db) (limit : Int) :
    FlagPlane.getFlagHistory db₁ db₂ r.id limit =
      some (listEventsByFlag db₂.events r.key limit) := by
  rw [FlagPlane.getFlagHistory, getByID, h.table.findById_eq_some.mpr ⟨hr, rfl⟩]
  rfl

end Page

/-- **A history.** Whatever commits between the two queries, in every run: a text that is no UUID makes
the first one fail, and a UUID that no row has is not found; otherwise the answer is the newest
events of the flag's key, newest first, at most 50, and none missing that is newer than the last of
them. Its first entry is no older than the flag that `GetByID` saw. -/
theorem history_page {rows : List FlagRow} {as bs : List Action} {db₁ db₂ : Db}
    (hrows : Migrated rows) (h₁ : exec step (Db.migrated rows) as = some db₁)
    (h₂ : exec step db₁ bs = some db₂) (marshalTime : Timestamp → String) (text : String) :
    (readUuid text = none → flagHistoryResponse marshalTime db₁ db₂ text = historyFailed) ∧
      ∀ id, readUuid text = some id →
        ((∀ r ∈ db₁.flags, r.id ≠ id) →
          flagHistoryResponse marshalTime db₁ db₂ text = notFoundResponse) ∧
        ∀ r ∈ db₁.flags, r.id = id → ∃ page,
          flagHistoryResponse marshalTime db₁ db₂ text = historyResponse marshalTime page ∧
          HistoryPage db₂.events r.key page ∧
          (r.version ≠ 0 → ∃ e, page.head? = some e ∧ r.version ≤ e.version) := by
  have hinv₁ : DbInv db₁ := DbInv.of_exec hrows h₁
  have hinv₂ : DbInv db₂ := exec_preserves (fun h hs => DbInv.step h hs) hinv₁ h₂
  refine ⟨fun hread => by rw [flagHistoryResponse, hread], fun id hread => ⟨fun hnone => ?_, ?_⟩⟩
  · have hfind : findById db₁.flags id = none :=
      List.find?_eq_none.mpr fun r hr => by simpa using hnone r hr
    simp only [flagHistoryResponse, hread, FlagPlane.getFlagHistory, getByID, hfind,
      Option.map_none]
  · rintro r hr rfl
    have hpage := historyPage hinv₂.versions r.key
    refine ⟨_, ?_, hpage, fun hversion => ?_⟩
    · simp only [flagHistoryResponse, hread, hinv₁.getFlagHistory hr]
    · obtain ⟨e, he, hev, -, hkey, -⟩ := (hinv₁.rowEvent r hr).resolve_left hversion
      have hlogged : e ∈ db₂.events :=
        exec_preserves (I := fun db => e ∈ db.events) (fun h hs => step_events hs h) he h₂
      rw [← hev]
      exact hpage.head hlogged hkey

/-- The id of `checkout`. -/
def checkoutId : String := "6ba7b810-9dad-11d1-80b4-00c04fd430c8"

/-- `checkout` is toggled before the first query. -/
def beforeHistory : List Action :=
  [.call 0 (.toggle checkoutId), .begin 0 1, .nextval 0, .scan 0, .lock 0, .appendEvent 0,
    .commit 0, .call 1 (.delete checkoutId)]

/-- It is deleted between the two. -/
def betweenReads : List Action :=
  [.begin 1 2, .selectKey 1, .nextval 1, .scan 1, .lock 1, .appendEvent 1, .commit 1]

/-- The history of a flag that is gone by now, asked for in upper case. -/
theorem history_page_deleted :
    ∃ db₁ db₂ page, exec step (Db.migrated [rowOf checkoutId]) beforeHistory = some db₁ ∧
      exec step db₁ betweenReads = some db₂ ∧ db₂.flags.length = 0 ∧
      flagHistoryResponse formatRFC3339 db₁ db₂ "6BA7B810-9DAD-11D1-80B4-00C04FD430C8" =
        historyResponse formatRFC3339 page ∧
      HistoryPage db₂.events "checkout" page := by
  have hrun : ((exec step (Db.migrated [rowOf checkoutId]) beforeHistory).bind fun db₁ =>
      (exec step db₁ betweenReads).map fun db₂ =>
        (db₁.flags.map fun r => (r.id, r.key), db₂.flags.length)) =
      some ([(checkoutId, "checkout")], 0) := by
    decide
  obtain ⟨db₁, h₁, hrun⟩ := Option.bind_eq_some_iff.mp hrun
  obtain ⟨db₂, h₂, hflags⟩ := Option.map_eq_some_iff.mp hrun
  obtain ⟨hrow, hgone⟩ := Prod.mk.inj hflags
  obtain ⟨r, hr, heq⟩ := List.mem_map.mp (hrow ▸ List.mem_singleton_self _ :
    (checkoutId, "checkout") ∈ db₁.flags.map fun r => (r.id, r.key))
  obtain ⟨hid, hkey⟩ := Prod.mk.inj heq
  obtain ⟨page, hanswer, hpage, -⟩ :=
    ((history_page (migrated_rowOf checkoutId) h₁ h₂ formatRFC3339
      "6BA7B810-9DAD-11D1-80B4-00C04FD430C8").2 checkoutId (by decide)).2 r hr hid
  exact ⟨db₁, db₂, page, h₁, h₂, hgone, hanswer, hkey ▸ hpage⟩

/-! ### The flag on top of its history -/

/-- Every flag is what the first entry of its history says; one that was never written has none. -/
def HistoryShows (db : Db) : Prop :=
  ∀ r ∈ db.flags, ∃ page, getFlagHistory db db r.id 50 = some page ∧
    (page = [] ∧ r.version = 0 ∨ ∃ e, page.head? = some e ∧ e.Records (scanFlag r))

/-- No event of a flag's key is above the flag. -/
def Db.Headed (db : Db) : Prop :=
  ∀ r ∈ db.flags, ∀ e ∈ db.events, e.flagKey = r.key → e.version ≤ r.version

/-- No flag is one whose description its column has cut. -/
def Db.Plain (db : Db) : Prop :=
  ∀ r ∈ db.flags, ∀ e ∈ db.events, ¬ e.RecordsUncut (scanFlag r)

/-- A commit that leaves every flag on top of its history: a write comes after every event of its
key, and no column has cut its text; a `DELETE` that matched no row comes before the flag that has
the key by now. Any other `DELETE` takes its flag along. -/
def Commit.OnTopOfHistory (db : Db) (c : Commit) : Prop :=
  match c.write with
  | .insert row | .update row =>
    (∀ e ∈ db.events, e.flagKey = row.key → e.version < c.locals.version) ∧ c.op.Uncut
  | .delete _ => True
  | .nothing => ∀ r ∈ db.flags, r.key = c.locals.key → c.locals.version < r.version

instance (db : Db) (c : Commit) : Decidable (c.OnTopOfHistory db) :=
  match hw : c.write with
  | .insert row | .update row =>
    decidable_of_iff
      ((∀ e ∈ db.events, e.flagKey = row.key → e.version < c.locals.version) ∧ c.op.Uncut)
      (by simp [Commit.OnTopOfHistory, hw])
  | .delete _ => .isTrue (by simp [Commit.OnTopOfHistory, hw])
  | .nothing =>
    decidable_of_iff (∀ r ∈ db.flags, r.key = c.locals.key → c.locals.version < r.version)
      (by simp [Commit.OnTopOfHistory, hw])

section Shows

variable {db db' : Db} {a : Action} {t : TxId} {c : Commit} {row : FlagRow}

/-- The page shows a flag when nothing in the log hides it. -/
theorem DbInv.historyShows_iff (h : DbInv db) : HistoryShows db ↔ db.Headed ∧ db.Plain := by
  constructor
  · intro hshows
    -- the first entry records the row, if the key has an event
    have hhead : ∀ r ∈ db.flags, ∀ e ∈ db.events, e.flagKey = r.key →
        ∃ x ∈ db.events, e.version ≤ x.version ∧ x.Records (scanFlag r) := by
      intro r hr e he hkey
      obtain ⟨page, hpage, hhead⟩ := hshows r hr
      obtain rfl := Option.some.inj ((h.getFlagHistory hr db 50).symm.trans hpage)
      have hpage := historyPage h.versions r.key
      obtain ⟨x, hx, hle⟩ := hpage.head he hkey
      rcases hhead with ⟨hnil, -⟩ | ⟨x', hx', hevent⟩
      · rw [hnil] at hx
        cases hx
      · obtain rfl := Option.some.inj (hx.symm.trans hx')
        exact ⟨x, (hpage.ofFlag x (List.mem_of_mem_head? hx)).1, hle, hevent⟩
    constructor
    · intro r hr e he hkey
      obtain ⟨x, -, hle, hrec⟩ := hhead r hr e he hkey
      exact hle.trans_eq hrec.1
    · rintro r hr e he ⟨d, hd, -, hv, -, hkey, hpayload⟩
      obtain ⟨x, hx, -, hxv, -, -, hrow⟩ := hhead r hr e he hkey
      obtain rfl := List.inj_on_of_nodup_map h.versions he hx (Eq.trans hv hxv.symm)
      exact hd (flagPayload_inj (hpayload.symm.trans hrow)).1
  · rintro ⟨hheaded, hplain⟩ r hr
    have hpage := historyPage h.versions r.key
    refine ⟨_, h.getFlagHistory hr db 50, ?_⟩
    rcases h.rowEvent r hr with hzero | ⟨e, he, hevent⟩
    · -- an event of the key would be above the row
      refine Or.inl ⟨List.eq_nil_iff_forall_not_mem.mpr fun e he => ?_, hzero⟩
      obtain ⟨hmem, hkey⟩ := hpage.ofFlag e he
      have hle := hheaded r hr e hmem hkey
      have hpos := (h.eventBound e hmem).1
      omega
    · obtain ⟨x, hx, hle⟩ := hpage.head he hevent.2.2.1
      obtain ⟨hmem, hkey⟩ := hpage.ofFlag x (List.mem_of_mem_head? hx)
      have hversion : e.version = x.version :=
        le_antisymm hle ((hheaded r hr x hmem hkey).trans_eq hevent.1.symm)
      obtain rfl := List.inj_on_of_nodup_map h.versions he hmem hversion
      exact Or.inr ⟨e, hx, hevent.records.resolve_right (hplain r hr e he)⟩

/-- A commit that leaves a row under its key. -/
theorem Db.Headed.write_iff (h : DbInv db) (hh : db.Headed)
    (ht : db.txs t = some ⟨c.op, .logged c.locals c.write c.event⟩)
    (hw : c.write = .insert row ∨ c.write = .update row) :
    (db.committed t c).Headed ↔
      ∀ e ∈ db.events, e.flagKey = row.key → e.version < c.locals.version := by
  have hrow : c.write.row? = some row := by
    rcases hw with hw | hw <;> rw [hw] <;> rfl
  have hmem : row ∈ (db.committed t c).flags := h.mem_committed ht hw
  have hversion : row.version = c.locals.version := ((h.writeInv ht).rowEvent hw).1
  constructor
  · intro hh' e he hkey
    have hle := hh' row hmem e (List.mem_append_left _ he) hkey
    exact lt_of_le_of_ne (hle.trans_eq hversion) ((h.version_new ht).2 e he)
  · intro htop r hr e he hkey
    rcases h.table.mem_applyWrite (h.write_fits ht) hrow hr with ⟨hrkey, hr⟩ | ⟨hrkey, hr⟩
    · obtain rfl : row = r := by
        rcases hw with hw | hw <;> rcases hr with hr | hr <;> rw [hw] at hr <;> cases hr <;> rfl
      rw [hversion]
      rcases List.mem_append.mp he with he | he
      · exact (htop e he hkey).le
      · rw [List.mem_singleton.mp he, h.event_version ht]
    · rcases List.mem_append.mp he with he | he
      · exact hh r hr e he hkey
      · rw [List.mem_singleton.mp he, h.event_key ht hrow] at hkey
        exact absurd hkey.symm hrkey

/-- A `DELETE` that takes its row. -/
theorem Db.Headed.delete (h : DbInv db) (hh : db.Headed)
    (ht : db.txs t = some ⟨c.op, .logged c.locals c.write c.event⟩) (hw : c.write = .delete row) :
    (db.committed t c).Headed := by
  have hrow : c.write.row? = some row := by
    rw [hw]
    rfl
  intro r hr e he hkey
  rcases h.table.mem_applyWrite (h.write_fits ht) hrow hr with ⟨-, hr⟩ | ⟨hrkey, hr⟩
  · rw [hw] at hr
    rcases hr with hr | hr <;> cases hr
  rcases List.mem_append.mp he with he | he
  · exact hh r hr e he hkey
  · rw [List.mem_singleton.mp he, h.event_key ht hrow] at hkey
    exact absurd hkey.symm hrkey

/-- A `DELETE` that matched no row. -/
theorem Db.Headed.nothing_iff (h : DbInv db) (hh : db.Headed)
    (ht : db.txs t = some ⟨c.op, .logged c.locals c.write c.event⟩) (hw : c.write = .nothing) :
    (db.committed t c).Headed ↔
      ∀ r ∈ db.flags, r.key = c.locals.key → c.locals.version < r.version := by
  have hkey : c.event.flagKey = c.locals.key := by
    rw [h.event_eq ht, hw]
    rfl
  have hflags : (db.committed t c).flags = db.flags := by
    rw [Db.committed, hw]
    rfl
  obtain ⟨hpos, hnew⟩ := h.version_new ht
  constructor
  · intro hh' r hr hrkey
    have hle := hh' r (hflags ▸ hr) c.event (List.mem_append_right _ (by simp))
      (hkey.trans hrkey.symm)
    rw [h.event_version ht] at hle
    refine lt_of_le_of_ne hle ?_
    rcases h.rowEvent r hr with hzero | ⟨e, he, hev, -⟩
    · omega
    · rw [← hev]
      exact (hnew e he).symm
  · intro hafter r hr e he hekey
    rw [hflags] at hr
    rcases List.mem_append.mp he with he | he
    · exact hh r hr e he hekey
    · rw [List.mem_singleton.mp he] at hekey ⊢
      rw [h.event_version ht]
      exact (hafter r hr (hekey.symm.trans hkey)).le

/-- A commit that cuts nothing cuts no flag of the table. -/
theorem Db.Plain.commit (h : DbInv db) (hp : db.Plain)
    (ht : db.txs t = some ⟨c.op, .logged c.locals c.write c.event⟩) (hcut : c.op.Uncut) :
    (db.committed t c).Plain := by
  intro r hr e he hrec
  have hv : e.version = r.version := hrec.choose_spec.2.2.1
  obtain ⟨hpos, hnew⟩ := h.version_new ht
  rcases List.mem_append.mp he with he | he
  · rcases mem_of_mem_applyWrite (h.write_fits ht) hr with hr | hw
    · exact hp r hr e he hrec
    · exact hnew e he (hv.trans ((h.writeInv ht).rowEvent hw).1)
  · rw [List.mem_singleton.mp he] at hrec
    exact h.not_recordsUncut ht hcut _ hrec

/-- A commit that leaves a row cuts none exactly when its text is uncut. -/
theorem Db.Plain.write_iff (h : DbInv db) (hp : db.Plain)
    (ht : db.txs t = some ⟨c.op, .logged c.locals c.write c.event⟩)
    (hw : c.write = .insert row ∨ c.write = .update row) :
    (db.committed t c).Plain ↔ c.op.Uncut := by
  refine ⟨fun hp' => ?_, hp.commit h ht⟩
  have hevent : RowEvent row c.event := by
    rw [h.event_eq ht]
    exact ((h.writeInv ht).rowEvent hw).2
  have huncut := hp' row (h.mem_committed ht hw) c.event (List.mem_append_right _ (by simp))
  exact (h.records_iff ht hw).mp (hevent.records.resolve_right huncut)

/-- **One statement.** From flags that are on top, exactly the commits `OnTopOfHistory` keep them
there. -/
theorem Db.Headed.step_iff (h : DbInv db) (hh : db.Headed) (hp : db.Plain)
    (hs : step db a = some db') :
    (db'.Headed ∧ db'.Plain) ↔ ∀ c, db.committing a = some c → c.OnTopOfHistory db := by
  rcases step_tables hs with ⟨hnone, hflags, hevents⟩ | ⟨t, c, rfl, ht, hc, rfl⟩
  · rw [Db.Headed, Db.Plain, hflags, hevents, hnone]
    exact ⟨fun _ _ hc => (nomatch hc), fun _ => ⟨hh, hp⟩⟩
  · have huncut : c.op.isDelete = true → c.op.Uncut := by
      cases c.op with
      | create flag => simp [Op.isDelete]
      | update _ _ | toggle _ | delete _ => exact fun _ => trivial
    have hwrite := h.writeInv ht
    rw [hc]
    simp only [Option.some.injEq, forall_eq']
    unfold Commit.OnTopOfHistory
    split
    · rename_i row hw
      exact and_congr (hh.write_iff h ht (Or.inl hw)) (hp.write_iff h ht (Or.inl hw))
    · rename_i row hw
      exact and_congr (hh.write_iff h ht (Or.inr hw)) (hp.write_iff h ht (Or.inr hw))
    · rename_i row hw
      rw [hw] at hwrite
      have hdel : c.op.isDelete = true := by rw [hwrite.2.1]; rfl
      exact iff_of_true ⟨hh.delete h ht hw, hp.commit h ht (huncut hdel)⟩ trivial
    · rename_i hw
      rw [hw] at hwrite
      have hdel : c.op.isDelete = true := by rw [hwrite.choose_spec.1]; rfl
      exact (and_iff_left (hp.commit h ht (huncut hdel))).trans (hh.nothing_iff h ht hw)

end Shows

/-- **When the history shows the flags.** Over every run: after every statement every flag is what
the first entry of its history says, exactly when every commit is `OnTopOfHistory`. -/
theorem history_shows_flags_iff {rows : List FlagRow} (hrows : Migrated rows) (as : List Action) :
    (∀ tr ∈ transitions step (Db.migrated rows) as, HistoryShows tr.post) ↔
      ∀ tr ∈ transitions step (Db.migrated rows) as,
        ∀ c, tr.pre.committing tr.act = some c → c.OnTopOfHistory tr.pre := by
  have hstart : (Db.migrated rows).Headed ∧ (Db.migrated rows).Plain :=
    ⟨fun _ _ e he => (List.not_mem_nil he).elim, fun _ _ e he => (List.not_mem_nil he).elim⟩
  exact transitions_iff (P := fun db => db.Headed ∧ db.Plain) (Q := fun _ _ db' => HistoryShows db')
    (C := fun db a => ∀ c, db.committing a = some c → c.OnTopOfHistory db)
    (fun h hs => DbInv.step h hs)
    (fun h hh hs => (h.step hs).historyShows_iff.trans (hh.1.step_iff h hh.2 hs))
    (fun h hh hs hC => (hh.1.step_iff h hh.2 hs).mpr hC) hrows.dbInv hstart

/-- Of two toggles that commit against their versions, the second one is under an event of its
key: from there on the history is wrong about the flag. -/
theorem history_shows_flags_iff_crossingToggles :
    ¬ ∀ tr ∈ transitions step (Db.migrated []) crossingToggles, HistoryShows tr.post := by
  have hany : (transitions step (Db.migrated []) crossingToggles).any (fun tr =>
      (tr.pre.committing tr.act).any fun c => !decide (c.OnTopOfHistory tr.pre)) = true := by
    decide
  obtain ⟨tr, htr, hbad⟩ := List.any_eq_true.mp hany
  obtain ⟨c, hc, hnot⟩ := (Option.any_eq_true _ _).mp hbad
  rw [history_shows_flags_iff migrated_nil]
  intro hall
  rw [Bool.not_eq_true', decide_eq_false_iff_not] at hnot
  exact hnot (hall tr htr c hc)

end FlagPlane
