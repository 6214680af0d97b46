import FlagPlane.Repository.Preservation

/-!
# FlagPlane.Repository.RowChain

**The life of one row.** The committed writes of a row form a chain: each one is its
request applied to the row the previous commit left, because an `UPDATE` that had to
wait for the row lock evaluates its `WHERE` and its `SET` list on the row as
committed by then. `UpdateFlagRequest.applyTo` states what a request is meant to do
to a row; `postImage_update` is where the assembled `SET` list meets it.

No two images of a row share a version, so a guarded `Update` that commits applies
to the very row its caller read.
-/

namespace FlagPlane

/-- What an update request asks for: the fields it sets, as their columns store them, and a new
stamp. -/
def UpdateFlagRequest.applyTo (req : UpdateFlagRequest) (x : Locals) (r : FlagRow) : FlagRow :=
  { r with
    description := (req.description.map (assignVarchar 256)).getD r.description
    enabled := req.enabled.getD r.enabled
    rolloutPercentage := req.rolloutPercentage.getD r.rolloutPercentage
    targetedUsers := req.targetedUsers.getD r.targetedUsers
    version := x.version
    updatedAt := x.now }

/-- What a toggle asks for: `enabled` negated, and a new stamp. -/
def toggled (x : Locals) (r : FlagRow) : FlagRow :=
  { r with enabled := !r.enabled, version := x.version, updatedAt := x.now }

/-- Commit `c` leaves `row`: its request applied to `prev`, whose version is the one a
guarded request expects. -/
def Commit.Follows (c : Commit) (prev row : FlagRow) : Prop :=
  c.write = .update row ∧
    match c.op with
    | .update _ req =>
      row = req.applyTo c.locals prev ∧ ∀ e, req.expectedVersion = some e → prev.version = e
    | .toggle _ => row = toggled c.locals prev
    | _ => False

/-- Commits that lead from `r₀` to a row, each following the one before. -/
inductive WriteChain (r₀ : FlagRow) : List Commit → FlagRow → Prop
  | start : WriteChain r₀ [] r₀
  | next {cs : List Commit} {c : Commit} {prev row : FlagRow} (h : WriteChain r₀ cs prev)
      (hc : c.Follows prev row) : WriteChain r₀ (cs ++ [c]) row

/-- The images of a row: `r₀` and what each commit leaves. -/
def images (r₀ : FlagRow) (cs : List Commit) : List FlagRow :=
  r₀ :: cs.filterMap fun c => c.write.row?

/-- A commit of an `Update` or `Toggle` call on an id. -/
def Commit.updates (c : Commit) (id : String) : Bool :=
  !c.op.isCreate && !c.op.isDelete && decide (c.op.flagId = id)

/-- The committed `Update` and `Toggle` calls of a run on an id, in commit order. -/
def rowUpdates (id : String) (trs : List (Transition Db Action)) : List Commit :=
  trs.filterMap fun tr => (tr.pre.committing tr.act).filter (·.updates id)

/-! ### Requests and `SET` lists -/

/-- **The `SET` list does what the request asks for.** -/
theorem postImage_update (id : String) (req : UpdateFlagRequest) (x : Locals) (r : FlagRow) :
    (Op.update id req).postImage x r = req.applyTo x r := by
  obtain ⟨description, enabled, rolloutPercentage, targetedUsers, expectedVersion⟩ := req
  cases description <;> cases enabled <;> cases rolloutPercentage <;> cases targetedUsers <;> rfl

theorem postImage_toggle (id : String) (x : Locals) (r : FlagRow) :
    (Op.toggle id).postImage x r = toggled x r := rfl

/-! ### Chains -/

section Chain

variable {r₀ row prev : FlagRow} {cs cs₁ cs₂ : List Commit} {c : Commit}

theorem images_append (r₀ : FlagRow) (cs : List Commit) {row : FlagRow}
    (hc : c.write.row? = some row) :
    images r₀ (cs ++ [c]) = images r₀ cs ++ [row] := by
  simp [images, List.filterMap_append, hc]

theorem WriteChain.mem_images (h : WriteChain r₀ cs row) : row ∈ images r₀ cs := by
  cases h with
  | start => simp [images]
  | next h hc =>
      rw [images_append r₀ _ (by rw [hc.1]; rfl)]
      simp

/-- Every commit of a chain follows the chain before it. -/
theorem WriteChain.split (h : WriteChain r₀ (cs₁ ++ c :: cs₂) row) :
    ∃ prev row', WriteChain r₀ cs₁ prev ∧ c.Follows prev row' := by
  generalize hcs : cs₁ ++ c :: cs₂ = cs at h
  induction h generalizing cs₂ with
  | start => simp at hcs
  | next h hc ih =>
      rcases List.eq_nil_or_concat cs₂ with rfl | ⟨cs₂', c', rfl⟩
      · obtain ⟨rfl, hcc⟩ := List.append_inj' hcs rfl
        obtain rfl := List.singleton_inj.mp hcc
        exact ⟨_, _, h, hc⟩
      · rw [List.concat_eq_append, ← List.cons_append, ← List.append_assoc] at hcs
        exact ih (List.append_inj' hcs rfl).1

theorem images_prefix (r₀ : FlagRow) (cs₁ cs₂ : List Commit) :
    ∀ r ∈ images r₀ cs₁, r ∈ images r₀ (cs₁ ++ cs₂) := by
  intro r hr
  rw [images, List.filterMap_append, ← List.cons_append]
  exact List.mem_append_left _ hr

end Chain

/-! ### The row over a run -/

/-- What a run from a database that has `r₀` keeps. -/
structure RowHistory (r₀ : FlagRow) (trs : List (Transition Db Action)) (db : Db) : Prop where
  inv : DbInv db
  /-- The chain ends at the row, as long as the row is there. -/
  chain : ∃ r, WriteChain r₀ (rowUpdates r₀.id trs) r ∧ ∀ r' ∈ db.flags, r'.id = r₀.id → r' = r
  versions : ((images r₀ (rowUpdates r₀.id trs)).map FlagRow.version).Nodup
  logged : ∀ r ∈ images r₀ (rowUpdates r₀.id trs),
    r.version = 0 ∨ ∃ e ∈ db.events, e.version = r.version
  seen : ∀ tr ∈ trs, ∀ r ∈ tr.post.flags, r.id = r₀.id → r ∈ images r₀ (rowUpdates r₀.id trs)
  /-- The id is taken for good. -/
  taken : r₀.id ∈ db.uuids
  fresh : ∀ t tx x row, db.txs t = some tx → tx.stage.write? = some (x, .insert row) →
    row.id ≠ r₀.id

section Step

variable {db db' : Db} {a : Action} {t : TxId} {c : Commit} {r₀ r : FlagRow}
  {trs : List (Transition Db Action)}

/-- An `INSERT` in progress has been there before, or has just taken a new id. -/
theorem step_insert (h : step db a = some db') {tx : Tx} {x : Locals} {row : FlagRow}
    (ht : db'.txs t = some tx) (hw : tx.stage.write? = some (x, .insert row)) :
    row.id ∉ db.uuids ∨ ∃ tx₀, db.txs t = some tx₀ ∧ tx₀.stage.write? = some (x, .insert row) := by
  cases step_effect h with
  | insert _ _ _ huuid =>
      rcases update_some_cases ht with ⟨-, rfl⟩ | ⟨-, ht⟩
      · cases hw
        exact Or.inl huuid
      · exact Or.inr ⟨tx, ht, hw⟩
  | log ht₀ =>
      rcases update_some_cases ht with ⟨rfl, rfl⟩ | ⟨-, ht⟩
      · exact Or.inr ⟨_, ht₀, hw⟩
      · exact Or.inr ⟨tx, ht, hw⟩
  | progress _ _ _ _ _ _ _ hw' =>
      rcases update_some_cases ht with ⟨-, rfl⟩ | ⟨-, ht⟩
      · rw [hw'] at hw
        cases hw
      · exact Or.inr ⟨tx, ht, hw⟩
  | _ =>
      rcases update_some_cases ht with ⟨-, rfl⟩ | ⟨-, ht⟩
      · cases hw
      · exact Or.inr ⟨tx, ht, hw⟩

/-- A committed update follows the row it found. -/
theorem DbInv.follows (h : DbInv db) (ht : db.txs t = some ⟨c.op, .logged c.locals c.write c.event⟩)
    {row : FlagRow} (hw : c.write = .update row) :
    ∃ prev ∈ db.flags, prev.id = row.id ∧ row.version = c.locals.version ∧ c.Follows prev row := by
  have hwrite : WriteInv db t c.op c.locals c.write := (h.tx t _ ht).write _ _ rfl
  have hv := (hwrite.rowEvent (Or.inr hw)).1
  rw [hw] at hwrite
  obtain ⟨prev, hprev, hdel, hwhere, hrow, -, -⟩ := hwrite
  refine ⟨prev, hprev, by rw [hrow, postImage_id], hv, hw, ?_⟩
  obtain ⟨op, x, w, ev⟩ := c
  dsimp only at hdel hwhere hrow ⊢
  cases op with
  | update id req =>
      refine ⟨hrow.trans (postImage_update id req x prev), fun e he => ?_⟩
      rw [Op.whereClause, he, Bool.and_eq_true] at hwhere
      exact of_decide_eq_true hwhere.2
  | toggle id => exact hrow.trans (postImage_toggle id x prev)
  | create flag => simp [Op.whereClause] at hwhere
  | delete id => simp [Op.isDelete] at hdel

/-- The `Update` and `Toggle` calls that commit are the ones that wrote their row. -/
theorem DbInv.updates_iff (h : DbInv db)
    (ht : db.txs t = some ⟨c.op, .logged c.locals c.write c.event⟩) {id : String} :
    c.updates id = true ↔ ∃ row, c.write = .update row ∧ row.id = id := by
  have hwrite := h.writeInv ht
  obtain ⟨op, x, w, ev⟩ := c
  rw [Commit.updates]
  dsimp only at hwrite ⊢
  cases w with
  | insert row =>
      obtain ⟨⟨flag, users, uuid, rfl, -⟩, -⟩ := hwrite
      simp [Op.isCreate]
  | update row =>
      obtain ⟨r, -, hdel, hwhere, rfl, -⟩ := hwrite
      have hcreate : op.isCreate = false := by
        cases op with
        | create flag => simp [Op.whereClause] at hwhere
        | update _ _ | toggle _ | delete _ => rfl
      have hid := Op.whereClause_id hwhere
      simp [hcreate, hdel, hid]
  | delete row =>
      obtain ⟨-, rfl, -⟩ := hwrite
      simp [Op.isDelete]
  | nothing =>
      obtain ⟨_, rfl, -⟩ := hwrite
      simp [Op.isDelete]

theorem rowUpdates_append_none {id : String}
    (h : ∀ c, db.committing a = some c → c.updates id = false) :
    rowUpdates id (trs ++ [⟨db, a, db'⟩]) = rowUpdates id trs := by
  rw [rowUpdates, List.filterMap_append, rowUpdates]
  cases hc : db.committing a with
  | none => simp [hc]
  | some c => simp [hc, h c hc]

theorem rowUpdates_append_some {id : String} (hc : db.committing a = some c)
    (hu : c.updates id = true) :
    rowUpdates id (trs ++ [⟨db, a, db'⟩]) = rowUpdates id trs ++ [c] := by
  rw [rowUpdates, List.filterMap_append, rowUpdates]
  simp [hc, Option.filter, hu]

/-- A step that does not update the row: the row stays as it is, or goes. -/
theorem RowHistory.step_other (h : RowHistory r₀ trs db) (hs : step db a = some db')
    (hother : ∀ c, db.committing a = some c → c.updates r₀.id = false) :
    RowHistory r₀ (trs ++ [⟨db, a, db'⟩]) db' := by
  have hrows : ∀ r ∈ db'.flags, r.id = r₀.id → r ∈ db.flags := by
    intro r hr hid
    rcases step_tables hs with ⟨-, hflags, -⟩ | ⟨t, c, rfl, ht, hc, rfl⟩
    · exact hflags ▸ hr
    · rcases mem_of_mem_applyWrite (h.inv.write_fits ht) hr with hr | hw | hw
      · exact hr
      · have hne := h.fresh t _ c.locals r ht (by rw [← hw]; rfl)
        exact absurd hid hne
      · have hupd := (h.inv.updates_iff ht).mpr ⟨r, hw, hid⟩
        rw [hother c hc] at hupd
        cases hupd
  obtain ⟨r, hchain, hlast⟩ := h.chain
  refine ⟨h.inv.step hs, ?_, ?_, ?_, ?_, step_uuids hs h.taken, ?_⟩
  · rw [rowUpdates_append_none hother]
    exact ⟨r, hchain, fun r' hr' hid => hlast r' (hrows r' hr' hid) hid⟩
  · rw [rowUpdates_append_none hother]
    exact h.versions
  · rw [rowUpdates_append_none hother]
    refine fun r' hr' => (h.logged r' hr').imp_right ?_
    intro h
    obtain ⟨e, he, hv⟩ := h
    exact ⟨e, step_events hs he, hv⟩
  · rw [rowUpdates_append_none hother]
    intro tr htr r' hr' hid
    rcases List.mem_append.mp htr with htr | htr
    · exact h.seen tr htr r' hr' hid
    · rw [List.mem_singleton] at htr
      subst htr
      rw [hlast r' (hrows r' hr' hid) hid]
      exact hchain.mem_images
  · intro t tx x row ht hw
    rcases step_insert hs ht hw with hnew | ⟨tx₀, ht₀, hw₀⟩
    · exact fun hid => hnew (hid ▸ h.taken)
    · exact h.fresh t tx₀ x row ht₀ hw₀

/-- A commit that updates the row adds one link to the chain. -/
theorem RowHistory.step_update (h : RowHistory r₀ trs db) (hs : step db a = some db')
    (hc : db.committing a = some c) (hu : c.updates r₀.id = true) :
    RowHistory r₀ (trs ++ [⟨db, a, db'⟩]) db' := by
  have hinv := h.inv
  rcases step_tables hs with ⟨hnone, -⟩ | ⟨t, c', rfl, ht, hc', rfl⟩
  · rw [hnone] at hc
    cases hc
  obtain rfl : c' = c := Option.some.inj (hc'.symm.trans hc)
  obtain ⟨row, hw, hid⟩ := (hinv.updates_iff ht).mp hu
  obtain ⟨prev, hprev, hprevid, hv, hfollows⟩ := hinv.follows ht hw
  obtain ⟨r, hchain, hlast⟩ := h.chain
  obtain rfl := hlast prev hprev (hprevid.trans hid)
  have hfit : RowWrite.Fits db.flags (.update row) := hw ▸ hinv.write_fits ht
  have himages : images r₀ (rowUpdates r₀.id trs ++ [c']) =
      images r₀ (rowUpdates r₀.id trs) ++ [row] := images_append r₀ _ (by rw [hw]; rfl)
  have hrow : ∀ r' ∈ (db.committed t c').flags, r'.id = r₀.id → r' = row := by
    intro r' hr' hid'
    rw [Db.committed, hw] at hr'
    rcases (mem_applyWrite_update hfit).mp hr' with ⟨-, hne⟩ | rfl
    · exact absurd (hid'.trans hid.symm) hne
    · rfl
  rw [← rowUpdates_append_some hc hu] at himages
  obtain ⟨hpos, hnew⟩ := hinv.version_new ht
  refine ⟨hinv.step hs, ⟨row, ?_, hrow⟩, ?_, ?_, ?_, step_uuids hs h.taken, ?_⟩
  · rw [rowUpdates_append_some hc hu]
    exact hchain.next hfollows
  · rw [himages, List.map_append, List.nodup_append]
    refine ⟨h.versions, by simp, fun v hv' v' hv'' => ?_⟩
    obtain ⟨p, hp, rfl⟩ := List.mem_map.mp hv'
    rw [List.map_singleton, List.mem_singleton] at hv''
    subst hv''
    -- an old image is at 0 or at an event's version, the new one at neither
    rcases h.logged p hp with hzero | ⟨e, he, hev⟩
    · omega
    · have := hnew e he
      omega
  · rw [himages]
    intro r' hr'
    rcases List.mem_append.mp hr' with hr' | hr'
    · refine (h.logged r' hr').imp_right ?_
      intro h
      obtain ⟨e, he, hev⟩ := h
      exact ⟨e, List.mem_append_left _ he, hev⟩
    · rw [List.mem_singleton.mp hr']
      exact Or.inr ⟨c'.event, by simp [Db.committed], by rw [hinv.event_version ht, hv]⟩
  · rw [himages]
    intro tr htr r' hr' hid'
    rcases List.mem_append.mp htr with htr | htr
    · exact List.mem_append_left _ (h.seen tr htr r' hr' hid')
    · rw [List.mem_singleton] at htr
      subst htr
      rw [hrow r' hr' hid']
      exact List.mem_append_right _ (List.mem_singleton.mpr rfl)
  · intro u tx x row' hu' hw'
    rcases step_insert hs hu' hw' with hnew' | ⟨tx₀, ht₀, hw₀⟩
    · exact fun hid' => hnew' (hid' ▸ h.taken)
    · exact h.fresh u tx₀ x row' ht₀ hw₀

theorem RowHistory.step (h : RowHistory r₀ trs db) (hs : FlagPlane.step db a = some db') :
    RowHistory r₀ (trs ++ [⟨db, a, db'⟩]) db' := by
  by_cases hu : ∃ c, db.committing a = some c ∧ c.updates r₀.id = true
  · obtain ⟨c, hc, hu⟩ := hu
    exact h.step_update hs hc hu
  · refine h.step_other hs fun c hc => ?_
    rw [← Bool.not_eq_true]
    exact fun hupd => hu ⟨c, hc, hupd⟩

theorem DbInv.rowHistory (h : DbInv db) (hr₀ : r₀ ∈ db.flags) : RowHistory r₀ [] db where
  inv := h
  chain := ⟨r₀, .start, fun _ hr hid => h.table.eq_of_id hr hr₀ hid⟩
  versions := List.nodup_singleton _
  logged r hr := by
    rw [List.mem_singleton.mp hr]
    refine (h.rowEvent r₀ hr₀).imp_right ?_
    intro h
    obtain ⟨e, he, hv, -⟩ := h
    exact ⟨e, he, hv⟩
  seen _ htr := by cases htr
  taken := h.uuids r₀ hr₀
  fresh t tx x row ht hw := ((((h.tx t tx ht).write x _ hw).2.2.2.1 r₀ hr₀).1).symm

end Step

/-- A row that the run starts from or comes by. -/
def Shows (db₀ : Db) (as : List Action) (r : FlagRow) : Prop :=
  r ∈ db₀.flags ∨ ∃ tr ∈ transitions step db₀ as, r ∈ tr.post.flags

/-- **No lost update.** From any reachable database that has the row `r₀`, over any run:
the committed updates of the row form a chain that ends at the row; no two images
share a version; and a guarded update follows the very image that any read of
the row at the expected version showed. -/
theorem no_lost_update {rows : List FlagRow} (hrows : Migrated rows) {as₀ as : List Action}
    {db₀ db : Db} {r₀ : FlagRow} (hreach : exec step (Db.migrated rows) as₀ = some db₀)
    (hr₀ : r₀ ∈ db₀.flags) (hrun : exec step db₀ as = some db) :
    (∃ r, WriteChain r₀ (rowUpdates r₀.id (transitions step db₀ as)) r ∧
      ∀ r' ∈ db.flags, r'.id = r₀.id → r' = r) ∧
    ((images r₀ (rowUpdates r₀.id (transitions step db₀ as))).map FlagRow.version).Nodup ∧
    ∀ cs₁ c cs₂, rowUpdates r₀.id (transitions step db₀ as) = cs₁ ++ c :: cs₂ →
      ∃ prev row, WriteChain r₀ cs₁ prev ∧ c.Follows prev row ∧
        ∀ id req e, c.op = .update id req → req.expectedVersion = some e →
          prev.version = e ∧
          ∀ r', Shows db₀ as r' → r'.id = r₀.id → r'.version = e → r' = prev := by
  have hdb₀ := DbInv.of_exec hrows hreach
  have h : RowHistory r₀ (transitions step db₀ as) db :=
    exec_history (fun h hs => RowHistory.step h hs) (hdb₀.rowHistory hr₀) hrun
  refine ⟨h.chain, h.versions, fun cs₁ c cs₂ hsplit => ?_⟩
  obtain ⟨r, hchain, -⟩ := h.chain
  obtain ⟨prev, row, hprev, hfollows⟩ := (hsplit ▸ hchain).split
  refine ⟨prev, row, hprev, hfollows, fun id req e hop he => ?_⟩
  have hguard : prev.version = e := by
    obtain ⟨-, hop'⟩ := hfollows
    rw [hop] at hop'
    exact hop'.2 e he
  refine ⟨hguard, fun r' hshows hid hv => ?_⟩
  have hmem : r' ∈ images r₀ (rowUpdates r₀.id (transitions step db₀ as)) := by
    rcases hshows with hr' | ⟨tr, htr, hr'⟩
    · rw [hdb₀.table.eq_of_id hr' hr₀ hid]
      exact List.mem_cons_self
    · exact h.seen tr htr r' hr' hid
  have hprevmem := images_prefix r₀ cs₁ (c :: cs₂) prev hprev.mem_images
  rw [← hsplit] at hprevmem
  exact List.inj_on_of_nodup_map h.versions hmem hprevmem (hv.trans hguard.symm)

/-! ### A description with too many blanks -/

/-- A request that sets the description. -/
def describe (d : String) : UpdateFlagRequest := ⟨some d, none, none, none, none⟩

def describeRun (d : String) : List Action :=
  [.call 1 (.update "u" (describe d)), .begin 1 1, .nextval 1, .scan 1, .lock 1, .appendEvent 1,
    .commit 1]

/-- A description that fits once it is cut is stored cut. -/
theorem exec_describeRun {d : String} (hlength : (assignVarchar 256 d).length ≤ 256)
    (hnul : noNul (assignVarchar 256 d) = true) :
    ∃ db c row, exec step (Db.migrated [checkoutRow]) (describeRun d) = some db ∧
      rowUpdates "u" (transitions step (Db.migrated [checkoutRow]) (describeRun d)) = [c] ∧
      c.op = .update "u" (describe d) ∧ c.write = .update row ∧
      row.description = assignVarchar 256 d := by
  have hok : ((Op.update "u" (describe d)).postImage ⟨1, "", 1⟩ checkoutRow).columnsOk = true :=
    FlagRow.columnsOk_description (r := { checkoutRow with version := 1, updatedAt := 1 })
      (by decide) hlength hnul
  have hdescription : ((Op.update "u" (describe d)).postImage ⟨1, "", 1⟩ checkoutRow).description =
      assignVarchar 256 d := rfl
  have hid : checkoutRow.id = "u" := rfl
  have hset : (setClauses (describe d)).isEmpty = false := rfl
  have hwhere : (Op.update "u" (describe d)).whereClause checkoutRow = true := rfl
  simp [describeRun, exec, transitions, rowUpdates, Db.committing, Commit.updates, step,
    Db.migrated, Db.setStage, Op.nothingToChange, hset, Op.isDelete, Op.isCreate, Db.nextVersion,
    maxVersion, hwhere, Op.flagId, findById, hid, Db.writeRow, hok, Db.takeLocks, Db.takeRowLock,
    Db.finish, hdescription, Option.filter]

/-- 256 letters and a blank: the committed row is not what the request set. -/
theorem paddedDescription_is_cut :
    ∃ db c row d, exec step (Db.migrated [checkoutRow]) (describeRun (blankPadded 256)) = some db ∧
      rowUpdates "u"
        (transitions step (Db.migrated [checkoutRow]) (describeRun (blankPadded 256))) = [c] ∧
      c.op = .update "u" (describe d) ∧ c.write = .update row ∧ row.description ≠ d := by
  have hfit := length_assignVarchar_blankPadded 256
  obtain ⟨db, c, row, hrun, hupdates, hop, hwrite, hdescription⟩ :=
    exec_describeRun hfit (noNul_assignVarchar_blankPadded 256)
  refine ⟨db, c, row, _, hrun, hupdates, hop, hwrite, ?_⟩
  rw [hdescription]
  exact assignVarchar_ne (by rw [length_blankPadded]; omega) hfit

/-! ### A guarded race -/

/-- A request that sets `enabled` on the flag as of version `e`. -/
def enableAt (e : Int) : UpdateFlagRequest := ⟨none, some true, none, none, some e⟩

/-- A toggle and an update guarded by version 1 find the row together. The toggle gets the
lock first, so the update fails its re-check; an update guarded by 2 succeeds. -/
def guardedRace : List Action :=
  [.call 1 (.toggle "u"), .call 2 (.update "u" (enableAt 1)), .begin 1 2, .begin 2 2, .nextval 1,
    .nextval 2, .scan 1, .scan 2, .lock 1, .appendEvent 1, .commit 1, .lock 2, .noRow 2,
    .call 3 (.update "u" (enableAt 2)), .begin 3 3, .nextval 3, .scan 3, .lock 3, .appendEvent 3,
    .commit 3]

theorem no_lost_update_guardedRace :
    ∃ db₀ db r₀, exec step (Db.migrated []) createCheckout = some db₀ ∧
      exec step db₀ guardedRace = some db ∧
      (rowUpdates r₀.id (transitions step db₀ guardedRace)).length = 2 ∧
      ∃ r, WriteChain r₀ (rowUpdates r₀.id (transitions step db₀ guardedRace)) r ∧
        ∀ r' ∈ db.flags, r'.id = r₀.id → r' = r := by
  have hrun : ((exec step (Db.migrated []) createCheckout).bind fun db₀ =>
      db₀.flags.head?.bind fun r₀ => (exec step db₀ guardedRace).map fun _ =>
        (rowUpdates r₀.id (transitions step db₀ guardedRace)).length) = some 2 := by
    decide
  obtain ⟨db₀, hdb₀, hrun⟩ := Option.bind_eq_some_iff.mp hrun
  obtain ⟨r₀, hr₀, hrun⟩ := Option.bind_eq_some_iff.mp hrun
  obtain ⟨db, hdb, hlen⟩ := Option.map_eq_some_iff.mp hrun
  exact ⟨db₀, db, r₀, hdb₀, hdb, hlen,
    (no_lost_update migrated_nil hdb₀ (List.mem_of_mem_head? hr₀) hdb).1⟩

end FlagPlane
