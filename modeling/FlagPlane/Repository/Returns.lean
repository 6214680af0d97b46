import FlagPlane.Repository.Preservation

/-!
# FlagPlane.Repository.Returns

**How a repository call returns.** Every return of a call is one of `Returns`, and each method
returns results of its own kind, `nil` or an error.
-/

namespace FlagPlane

section Step

variable {db db' : Db} {a : Action} {t : TxId} {op : Op} {r : RepoResult}

/-- The stage a call is left in, when that is a return. -/
theorem returned_of_setStage {db : Db} {op' : Op} {st : Stage}
    (h : (db.setStage t op' st).txs t = some ⟨op, .returned r⟩) : op' = op ∧ st = .returned r := by
  rw [Db.setStage_txs_self] at h
  simpa using h

theorem returned_of_finish {db : Db} {op' : Op} {r' : RepoResult}
    (h : (db.finish t op' r').txs t = some ⟨op, .returned r⟩) : op' = op ∧ r' = r := by
  obtain ⟨hop, hst⟩ := returned_of_setStage h
  exact ⟨hop, Stage.returned.inj hst⟩

/-- **Inversion of a return.** -/
theorem step_returns (hs : step db a = some db') (ht : db'.txs t = some ⟨op, .returned r⟩) :
    db.txs t = some ⟨op, .returned r⟩ ∨ Returns db t a op r := by
  by_cases hother : t = a.tx
  swap
  · rw [step_txs_of_ne hs hother] at ht
    exact Or.inl ht
  subst hother
  refine Or.inr ?_
  cases step_effect hs with
  | finish ha htx hret hr hreturns =>
      subst ha
      obtain ⟨rfl, rfl⟩ := returned_of_finish ht
      exact hreturns
  | commit htx =>
      obtain ⟨rfl, rfl⟩ := returned_of_finish ht
      exact .commit htx
  | progress ha htx hret hret' =>
      subst ha
      obtain ⟨-, rfl⟩ := returned_of_setStage ht
      cases hret'
  | vanish ha =>
      subst ha
      cases (returned_of_setStage ht).2
  | call | select | draw | insert | update | remove | recheck | log =>
      cases (returned_of_setStage ht).2

/-- `Create`'s `INSERT` of a row that the columns take meets a committed row of its key. -/
theorem step_insert_duplicate {flag : Flag} {uuid : String}
    (hs : step db (.insert t uuid) = some db') (ht : ∃ st, db.txs t = some ⟨.create flag, st⟩)
    (hok : ∃ users, flag.targetedUsers = some users ∧
      ∀ x, (insertedRow flag users uuid x).columnsOk = true)
    (hkey : (findByKey db.flags flag.key).isSome) :
    db'.txs t = some ⟨.create flag, .returned (.error .uniqueViolation)⟩ := by
  obtain ⟨st, ht⟩ := ht
  obtain ⟨users, husers, hok⟩ := hok
  have hop : ∀ {op : Op} {st' : Stage}, db.txs t = some ⟨op, st'⟩ → op = .create flag := by
    intro op st' htx
    rw [ht] at htx
    cases htx
    rfl
  cases step_effect hs with
  | progress _ _ _ _ _ _ _ _ hmoves => cases hmoves
  | vanish ha htx =>
      subst ha
      cases hop htx
  | insert htx _ _ _ _ hnone =>
      cases hop htx
      rw [hnone] at hkey
      cases hkey
  | finish ha htx _ _ hreturns =>
      subst ha
      obtain rfl := hop htx
      cases hreturns with
      | nilUsers hnil => cases hnil.symm.trans husers
      | refused _ hrow hbad =>
          obtain ⟨users', uuid', x, husers', rfl⟩ := hrow
          obtain rfl : users' = users := by simpa using husers'.symm.trans husers
          cases hbad.symm.trans (hok x)
      | duplicate => exact Db.setStage_txs_self _ _ _ _

end Step

/-! ### What a method can return -/

/-- The results that the method of an operation has: of its own kind, `nil` or an error. -/
def Op.canReturn : Op → RepoResult → Bool
  | create _, .created _ | update _ _, .flag (some _) | toggle _, .flag (some _)
  | delete _, .deleted _ | _, .flag none | _, .error _ => true
  | _, _ => false

/-- Every call that has returned has returned something its method can return. -/
def ResultsFit (db : Db) : Prop :=
  ∀ t op r, db.txs t = some ⟨op, .returned r⟩ → op.canReturn r = true

section ResultsFit

variable {db db' : Db} {a : Action} {t : TxId} {op : Op} {r : RepoResult}

theorem canReturn_error (op : Op) (err : RepoError) : op.canReturn (.error err) = true := by
  cases op <;> rfl

/-- A commit returns what its method can return. -/
theorem DbInv.canReturn_commit (h : DbInv db) {c : Commit}
    (ht : db.txs t = some ⟨c.op, .logged c.locals c.write c.event⟩) :
    c.op.canReturn (c.op.result c.locals c.write) = true := by
  have hwrite := h.writeInv ht
  cases hw : c.write with
  | insert row =>
      rw [hw] at hwrite
      obtain ⟨⟨flag, _, _, hop, -⟩, -⟩ := hwrite
      rw [hop]
      rfl
  | update row =>
      rw [hw] at hwrite
      obtain ⟨r, -, hdel, hwhere, -⟩ := hwrite
      cases hop : c.op with
      | create flag => simp [hop, Op.whereClause] at hwhere
      | update _ _ | toggle _ => rfl
      | delete _ => simp [hop, Op.isDelete] at hdel
  | delete row =>
      rw [hw] at hwrite
      rw [hwrite.2.1]
      rfl
  | nothing =>
      rw [hw] at hwrite
      obtain ⟨id, hop, -⟩ := hwrite
      rw [hop]
      rfl

theorem noRowResult_canReturn (db : Db) (op : Op) : op.canReturn (db.noRowResult op) = true := by
  unfold Db.noRowResult
  split
  · split
    · exact canReturn_error _ _
    · rfl
  · cases op <;> rfl

theorem Returns.canReturn (hinv : DbInv db) (h : Returns db t a op r) : op.canReturn r = true := by
  cases h with
  | @read op hop =>
      cases op with
      | update id req =>
          show (Op.update id req).canReturn (.flag (getByID db.flags id)) = true
          cases getByID db.flags id <;> rfl
      | create _ | toggle _ | delete _ => cases hop
  | noRow => exact noRowResult_canReturn db op
  | commit ht => exact hinv.canReturn_commit ht
  | gone | nilUsers | refused | duplicate | eventTaken | fail => exact canReturn_error _ _

theorem ResultsFit.step (h : ResultsFit db) (hinv : DbInv db)
    (hs : FlagPlane.step db a = some db') : ResultsFit db' := by
  intro t op r ht
  rcases step_returns hs ht with hold | hreturns
  · exact h t op r hold
  · exact hreturns.canReturn hinv

end ResultsFit

end FlagPlane
