import Mathlib.Data.List.Infix
import Mathlib.Data.List.Sort
import Mathlib.Logic.Function.Basic
import FlagPlane.Machine
import FlagPlane.Lines

/-!
# FlagPlane.Migrate.Run

**`migrate.Run`, any number of calls at once.** Each call is a process of one replica over one
Postgres. Its statements are separate steps, and between any two of them other calls move, a
statement fails, the process crashes, or the session that holds the advisory lock ends and frees
the lock while the call goes on.

The lock is in the model, and no proof uses it. What keeps a body from being applied twice is the
primary key of `schema_migrations`: an `INSERT` of a name waits while another open transaction has
inserted it, and fails once it is committed. What keeps the order is that a call reaches a file
only after it has seen the one before it committed.

A body is taken to be transactional: what it does becomes visible at the `COMMIT` of its
transaction and not otherwise, and it leaves `schema_migrations` alone.
-/

namespace FlagPlane.Migrate

/-! ### The files -/

/-- A file of `fsys`. -/
structure File where
  name : String
  body : String
  deriving DecidableEq, Repr

/-- The directory `fsys`; no two of its files share a name. -/
structure Fsys where
  files : List File
  nodup : (files.map File.name).Nodup

namespace Fsys

variable (fsys : Fsys)

/-- `fs.Glob(fsys, "*.sql")`, then `sort.Strings`. -/
def names : List String :=
  ((fsys.files.map File.name).filter fun name => ".sql".toList.isSuffixOf name.toList).insertionSort
    (· ≤ ·)

/-- `fs.ReadFile`. -/
def readFile (name : String) : Option String :=
  (fsys.files.find? fun file => file.name = name).map File.body

end Fsys

/-- The statement that `applyOne` executes for a body: none for a blank one. -/
def statement (body : String) : Option String :=
  if trimSpace body.toList = [] then none else some body

/-! ### The database and the calls -/

/-- A call of `Run`. -/
abbrev RunId := Nat

/-- A connection of the pool, and its session. -/
abbrev ConnId := Nat

/-- What one transaction has written: the body it executed, the row it inserted. -/
structure Tx where
  body : Option String
  version : Option String
  deriving DecidableEq, Repr

/-- The transaction that a file is to be applied in. -/
def Fsys.entry (fsys : Fsys) (name : String) : Tx :=
  ⟨(fsys.readFile name).bind statement, some name⟩

/-- The transaction of a call, as the server sees it. -/
inductive ServerTx
  /-- None is open. -/
  | none
  | active (tx : Tx)
  /-- `COMMIT` has been sent. -/
  | committing (tx : Tx)
  /-- It is committed; the answer is on its way. -/
  | committed
  deriving DecidableEq, Repr

/-- What an open transaction has written. -/
def ServerTx.open? : ServerTx → Option Tx
  | active tx | committing tx => some tx
  | none | committed => Option.none

/-- Where a call of `Run` is: the call it makes next. `rest` holds the names after the current
one. -/
inductive Stage
  /-- `pool.Acquire`. -/
  | acquiring
  /-- `pg_advisory_lock`. -/
  | locking
  /-- `CREATE TABLE IF NOT EXISTS`. -/
  | creating
  /-- `fs.Glob`. -/
  | globbing
  /-- The head of the loop. -/
  | checking (rest : List String)
  /-- `fs.ReadFile`. -/
  | reading (name : String) (rest : List String)
  /-- `pool.Begin`. -/
  | beginning (name body : String) (rest : List String)
  /-- The body. -/
  | applying (name body : String) (rest : List String)
  /-- The `INSERT`. -/
  | recording (name body : String) (rest : List String)
  /-- `tx.Commit`. -/
  | committing (name body : String) (rest : List String)
  /-- `COMMIT` is sent. -/
  | awaiting (name body : String) (rest : List String)
  /-- The deferred `pg_advisory_unlock`; `ok` when the call returns `nil`. -/
  | unlocking (ok : Bool)
  | returned (ok : Bool)
  | crashed
  deriving DecidableEq, Repr

namespace Stage

def isRunning : Stage → Bool
  | returned _ | crashed => false
  | _ => true

/-- The call is at a statement whose error `Run` returns. -/
def canFail : Stage → Bool
  | unlocking _ | returned _ | crashed => false
  | _ => true

end Stage

structure Postgres where
  /-- `schema_migrations` exists. -/
  table : Bool
  /-- The committed migration transactions, in commit order. -/
  log : List Tx
  /-- The session that holds the advisory lock. -/
  lock : Option ConnId
  /-- The open transaction that has inserted a name: what another `INSERT` of it waits for. -/
  keyLock : String → Option RunId
  txs : RunId → ServerTx
  /-- The connections that calls have acquired for the lock. -/
  acquired : List ConnId
  conn : RunId → Option ConnId
  stage : RunId → Stage

namespace Postgres

/-- The rows of `schema_migrations`. -/
def recorded (s : Postgres) : List String :=
  s.log.filterMap Tx.version

def setStage (s : Postgres) (r : RunId) (st : Stage) : Postgres :=
  { s with stage := Function.update s.stage r st }

def setTx (s : Postgres) (r : RunId) (tx : ServerTx) : Postgres :=
  { s with txs := Function.update s.txs r tx }

/-- The transaction of a call ends, and what it has inserted is no longer waited for. -/
def endTx (s : Postgres) (r : RunId) (tx : ServerTx) : Postgres :=
  { s.setTx r tx with
    keyLock := fun name => if s.keyLock name = some r then none else s.keyLock name }

/-- A session ends, and with it the lock if it holds it. -/
def endSession (s : Postgres) (c : ConnId) : Postgres :=
  { s with lock := if s.lock = some c then none else s.lock }

end Postgres

/-- One step of one call or of the server, with what the environment chooses for it. -/
inductive Action
  | acquire (r : RunId) (c : ConnId)
  | lock (r : RunId)
  | createTable (r : RunId)
  | glob (r : RunId)
  | check (r : RunId)
  | readFile (r : RunId)
  | begin (r : RunId)
  | apply (r : RunId)
  | insert (r : RunId)
  | commit (r : RunId)
  /-- The server performs the `COMMIT`. -/
  | serverCommit (r : RunId)
  /-- The answer to the `COMMIT` arrives. -/
  | answer (r : RunId)
  /-- The server rolls the transaction back: a `Rollback`, a lost connection, a statement that
  failed. -/
  | rollback (r : RunId)
  /-- The call that `Run` is at returns an error, also when the server has done what was asked. -/
  | fail (r : RunId)
  /-- The deferred unlock, and whether the server got it. -/
  | unlock (r : RunId) (received : Bool)
  /-- A session ends. -/
  | loseSession (c : ConnId)
  | crash (r : RunId)
  deriving Repr

/-- What one action does; `none` when the call is not there, or has to wait. -/
def step (fsys : Fsys) (s : Postgres) : Action → Option Postgres
  | .acquire r c =>
    match s.stage r with
    | .acquiring =>
      if c ∈ s.acquired then none
      else some ({ s with
        acquired := c :: s.acquired
        conn := Function.update s.conn r (some c) }.setStage r .locking)
    | _ => none
  | .lock r =>
    match s.stage r, s.conn r with
    | .locking, some c =>
      if s.lock = none ∨ s.lock = some c then
        some ({ s with lock := some c }.setStage r .creating)
      else none
    | _, _ => none
  | .createTable r =>
    match s.stage r with
    | .creating => some ({ s with table := true }.setStage r .globbing)
    | _ => none
  | .glob r =>
    match s.stage r with
    | .globbing => some (s.setStage r (.checking fsys.names))
    | _ => none
  | .check r =>
    match s.stage r with
    | .checking [] => some (s.setStage r (.unlocking true))
    | .checking (name :: rest) =>
      if s.table = false then none
      else if name ∈ s.recorded then some (s.setStage r (.checking rest))
      else some (s.setStage r (.reading name rest))
    | _ => none
  | .readFile r =>
    match s.stage r with
    | .reading name rest =>
      (fsys.readFile name).map fun body => s.setStage r (.beginning name body rest)
    | _ => none
  | .begin r =>
    match s.stage r with
    | .beginning name body rest =>
      some ((s.setTx r (.active ⟨none, none⟩)).setStage r (.applying name body rest))
    | _ => none
  | .apply r =>
    match s.stage r, s.txs r with
    | .applying name body rest, .active tx =>
      some ((s.setTx r (.active { tx with body := statement body })).setStage r
        (.recording name body rest))
    | _, _ => none
  | .insert r =>
    match s.stage r, s.txs r with
    | .recording name body rest, .active tx =>
      if s.table = false ∨ name ∈ s.recorded ∨ s.keyLock name ≠ none then none
      else some (({ s with keyLock := Function.update s.keyLock name (some r) }.setTx r
        (.active { tx with version := some name })).setStage r (.committing name body rest))
    | _, _ => none
  | .commit r =>
    match s.stage r, s.txs r with
    | .committing name body rest, .active tx =>
      some ((s.setTx r (.committing tx)).setStage r (.awaiting name body rest))
    | _, _ => none
  | .serverCommit r =>
    match s.txs r with
    | .committing tx => some { s.endTx r .committed with log := s.log ++ [tx] }
    | _ => none
  | .answer r =>
    match s.stage r, s.txs r with
    | .awaiting _ _ rest, .committed => some ((s.setTx r .none).setStage r (.checking rest))
    | _, _ => none
  | .rollback r =>
    if (s.txs r).open?.isSome then some (s.endTx r .none) else none
  | .fail r =>
    if (s.stage r).canFail then some (s.setStage r (.unlocking false)) else none
  | .unlock r received =>
    match s.stage r with
    | .unlocking ok =>
      match s.conn r with
      | none => some (s.setStage r (.returned ok))
      | some c =>
        let s' := if received then s.endSession c else s
        some ({ s' with acquired := s.acquired.erase c }.setStage r (.returned ok))
    | _ => none
  | .loseSession c => some (s.endSession c)
  | .crash r =>
    if (s.stage r).isRunning then some (s.setStage r .crashed) else none

/-- A database no migration has run on. -/
def Postgres.fresh : Postgres where
  table := false
  log := []
  lock := none
  keyLock := fun _ => none
  txs := fun _ => .none
  acquired := []
  conn := fun _ => none
  stage := fun _ => .acquiring

/-! ### The invariant -/

/-- Everything before `rest` is recorded. -/
def Fsys.RecordedUpTo (fsys : Fsys) (recorded rest : List String) : Prop :=
  ∃ done, fsys.names = done ++ rest ∧ ∀ name ∈ done, name ∈ recorded

/-- What a call knows at a stage: which files it has seen committed, and the body it has read. -/
def Stage.Knows (fsys : Fsys) (recorded : List String) : Stage → Prop
  | checking rest => fsys.RecordedUpTo recorded rest
  | reading name rest => fsys.RecordedUpTo recorded (name :: rest)
  | beginning name body rest | applying name body rest | recording name body rest
  | committing name body rest | awaiting name body rest =>
    fsys.RecordedUpTo recorded (name :: rest) ∧ fsys.readFile name = some body
  | unlocking true | returned true => fsys.RecordedUpTo recorded []
  | _ => True

/-- What the open transaction of a call at a stage has written. -/
def Stage.written : Stage → Option Tx
  | applying _ _ _ => some ⟨none, none⟩
  | recording _ body _ => some ⟨statement body, none⟩
  | committing name body _ | awaiting name body _ => some ⟨statement body, some name⟩
  | _ => none

/-- The name whose commit a call waits for. -/
def Stage.awaited : Stage → Option String
  | awaiting name _ _ => some name
  | _ => none

/-- A transaction that has inserted a row: it applies the file of that name, everything before the
file is recorded, the file is not, and nobody else has inserted it. -/
structure Inserted (fsys : Fsys) (recorded : List String) (keyLock : String → Option RunId)
    (r : RunId) (tx : Tx) (name : String) : Prop where
  entry : tx = fsys.entry name
  before : ∃ rest, fsys.RecordedUpTo recorded (name :: rest)
  isNew : name ∉ recorded
  holds : keyLock name = some r

structure Inv (fsys : Fsys) (s : Postgres) : Prop where
  /-- What is committed is the files of the first names, each as one transaction. -/
  log : s.log = s.recorded.map fsys.entry
  inOrder : s.recorded <+: fsys.names
  knows : ∀ r, (s.stage r).Knows fsys s.recorded
  written : ∀ r tx w, (s.txs r).open? = some tx → (s.stage r).written = some w → tx = w
  inserted : ∀ r tx name, (s.txs r).open? = some tx → tx.version = some name →
    Inserted fsys s.recorded s.keyLock r tx name
  /-- `COMMIT` is sent after the `INSERT`. -/
  sent : ∀ r tx, s.txs r = .committing tx → tx.version ≠ none
  answered : ∀ r name, s.txs r = .committed → (s.stage r).awaited = some name → name ∈ s.recorded

section Files

variable {fsys : Fsys} {recorded rest : List String} {name body : String}

theorem Fsys.names_nodup (fsys : Fsys) : fsys.names.Nodup :=
  (List.perm_insertionSort _ _).nodup_iff.mpr (fsys.nodup.filter _)

theorem Fsys.RecordedUpTo.mono {recorded' : List String} (h : fsys.RecordedUpTo recorded rest)
    (hsub : ∀ name ∈ recorded, name ∈ recorded') : fsys.RecordedUpTo recorded' rest := by
  obtain ⟨done, hnames, hdone⟩ := h
  exact ⟨done, hnames, fun name hmem => hsub name (hdone name hmem)⟩

/-- The next file is seen committed. -/
theorem Fsys.RecordedUpTo.next (h : fsys.RecordedUpTo recorded (name :: rest))
    (hname : name ∈ recorded) : fsys.RecordedUpTo recorded rest := by
  obtain ⟨done, hnames, hdone⟩ := h
  refine ⟨done ++ [name], by rw [hnames, List.append_cons], fun x hx => ?_⟩
  rcases List.mem_append.mp hx with hx | hx
  · exact hdone x hx
  · rwa [List.mem_singleton.mp hx]

/-- **The order.** A file that is not recorded, while everything before it is, comes right after
the recorded ones. -/
theorem Fsys.RecordedUpTo.prefix_concat (h : fsys.RecordedUpTo recorded (name :: rest))
    (hinitial : recorded <+: fsys.names) (hname : name ∉ recorded) :
    recorded ++ [name] <+: fsys.names := by
  obtain ⟨done, hnames, hdone⟩ := h
  have hnodup : done.Nodup := by
    have hall := fsys.names_nodup
    rw [hnames] at hall
    exact hall.of_append_left
  have hlength : done.length ≤ recorded.length := (List.subperm_of_subset hnodup hdone).length_le
  obtain ⟨t, rfl⟩ : done <+: recorded :=
    List.prefix_of_prefix_length_le ⟨name :: rest, hnames.symm⟩ hinitial hlength
  rw [hnames, List.prefix_append_right_inj] at hinitial
  cases t with
  | nil =>
      refine ⟨rest, ?_⟩
      rw [hnames, List.append_nil, ← List.append_cons]
  | cons x t =>
      obtain ⟨rfl, -⟩ := List.cons_prefix_cons.mp hinitial
      simp at hname

/-- What a call knows stays true. -/
theorem Stage.Knows.mono {recorded' : List String} {st : Stage} (h : st.Knows fsys recorded)
    (hsub : ∀ name ∈ recorded, name ∈ recorded') : st.Knows fsys recorded' := by
  cases st with
  | acquiring | locking | creating | globbing | crashed => trivial
  | checking _ | reading _ _ => exact Fsys.RecordedUpTo.mono h hsub
  | beginning _ _ _ | applying _ _ _ | recording _ _ _ | committing _ _ _ | awaiting _ _ _ =>
      exact ⟨h.1.mono hsub, h.2⟩
  | unlocking ok | returned ok =>
      cases ok with
      | true => exact Fsys.RecordedUpTo.mono h hsub
      | false => trivial

end Files

section Steps

variable {fsys : Fsys} {s s' : Postgres} {r : RunId} {st' : Stage} {tx' : ServerTx}

/-- One call moves to `st'`, its transaction to `tx'`, and nothing is committed. -/
theorem Inv.update (h : Inv fsys s) (tx' : ServerTx) (st' : Stage) (hlog : s'.log = s.log)
    (hkey : ∀ q name, q ≠ r → s.keyLock name = some q → s'.keyLock name = some q)
    (htxs : s'.txs = Function.update s.txs r tx')
    (hstage : s'.stage = Function.update s.stage r st')
    (hknows : st'.Knows fsys s.recorded)
    (hwritten : ∀ tx w, tx'.open? = some tx → st'.written = some w → tx = w)
    (hinserted : ∀ tx name, tx'.open? = some tx → tx.version = some name →
      Inserted fsys s.recorded s'.keyLock r tx name)
    (hsent : ∀ tx, tx' = .committing tx → tx.version ≠ none)
    (hanswered : ∀ name, tx' = .committed → st'.awaited = some name → name ∈ s.recorded) :
    Inv fsys s' := by
  have hrecorded : s'.recorded = s.recorded := by rw [Postgres.recorded, hlog, Postgres.recorded]
  constructor
  · rw [hlog, hrecorded]
    exact h.log
  · rw [hrecorded]
    exact h.inOrder
  · intro q
    rw [hrecorded, hstage, Function.update_apply]
    split
    · exact hknows
    · exact h.knows q
  · intro q
    rw [htxs, hstage, Function.update_apply, Function.update_apply]
    split
    · exact hwritten
    · exact h.written q
  · intro q
    rw [hrecorded, htxs, Function.update_apply]
    split
    · rename_i hq
      exact hq ▸ hinserted
    · rename_i hq
      intro tx name hopen hname
      have hins := h.inserted q tx name hopen hname
      exact ⟨hins.entry, hins.before, hins.isNew, hkey q name hq hins.holds⟩
  · intro q
    rw [htxs, Function.update_apply]
    split
    · exact hsent
    · exact h.sent q
  · intro q
    rw [hrecorded, htxs, hstage, Function.update_apply, Function.update_apply]
    split
    · exact hanswered
    · exact h.answered q

/-- One call moves, away from its transaction. -/
theorem Inv.move (h : Inv fsys s) (st' : Stage) (hlog : s'.log = s.log)
    (hkey : s'.keyLock = s.keyLock)
    (htxs : s'.txs = s.txs) (hstage : s'.stage = Function.update s.stage r st')
    (hknows : st'.Knows fsys s.recorded) (hwritten : st'.written = none)
    (hawaited : st'.awaited = none) : Inv fsys s' := by
  refine h.update (s.txs r) st' hlog (fun q name _ hq => hkey ▸ hq)
    (by rw [htxs, Function.update_eq_self]) hstage hknows ?_ ?_ (h.sent r) ?_
  · intro tx w _ hw
    rw [hwritten] at hw
    cases hw
  · rw [hkey]
    exact h.inserted r
  · intro name _ hname
    rw [hawaited] at hname
    cases hname

/-- The end of a transaction leaves what the others wait for. -/
theorem endTx_keyLock (tx' : ServerTx) {q : RunId} {name : String} (hq : q ≠ r)
    (h : s.keyLock name = some q) :
    (s.endTx r tx').keyLock name = some q := by
  show (if s.keyLock name = some r then none else s.keyLock name) = some q
  rw [if_neg (by rw [h]; simpa using hq), h]

/-- A transaction that is open after that one is another one, and was open before. -/
theorem endTx_open {q : RunId} {tx : Tx} (h : ((s.endTx r tx').txs q).open? = some tx)
    (hend : tx'.open? = none) : q ≠ r ∧ (s.txs q).open? = some tx := by
  by_cases hq : q = r
  · subst hq
    rw [show (s.endTx q tx').txs q = tx' from Function.update_self .., hend] at h
    cases h
  · rw [show (s.endTx r tx').txs q = s.txs q from Function.update_of_ne hq _ _] at h
    exact ⟨hq, h⟩

/-- A call that waits for a commit has inserted the name. -/
theorem written_of_awaited {st : Stage} {name : String} (h : st.awaited = some name) :
    ∃ w, st.written = some w ∧ w.version = some name := by
  cases st with
  | awaiting name' body rest => exact ⟨_, rfl, h⟩
  | _ => cases h

/-- **A commit.** Exactly the next file is applied, with its row. -/
theorem Inv.serverCommit (h : Inv fsys s) {tx : Tx} (htx : s.txs r = .committing tx) :
    Inv fsys { s.endTx r .committed with log := s.log ++ [tx] } := by
  obtain ⟨name, hname⟩ := Option.ne_none_iff_exists'.mp (h.sent r tx htx)
  have hins := h.inserted r tx name (by rw [htx]; rfl) hname
  obtain ⟨rest, hbefore⟩ := hins.before
  have hrecorded : Postgres.recorded { s.endTx r .committed with log := s.log ++ [tx] } =
      s.recorded ++ [name] := by
    simp [Postgres.recorded, hname]
  have hsub : ∀ x ∈ s.recorded, x ∈ s.recorded ++ [name] := fun x => List.mem_append_left _
  constructor
  · rw [hrecorded, List.map_append, ← h.log, List.map_singleton, ← hins.entry]
  · rw [hrecorded]
    exact hbefore.prefix_concat h.inOrder hins.isNew
  · intro q
    rw [hrecorded]
    exact (h.knows q).mono hsub
  · intro q tx' w hopen
    obtain ⟨-, hopen⟩ := endTx_open hopen rfl
    exact h.written q tx' w hopen
  · intro q tx' name' hopen hname'
    obtain ⟨hq, hopen⟩ := endTx_open hopen rfl
    have hother := h.inserted q tx' name' hopen hname'
    obtain ⟨rest', hbefore'⟩ := hother.before
    refine ⟨hother.entry, ⟨rest', ?_⟩, ?_, endTx_keyLock .committed hq hother.holds⟩
    · rw [hrecorded]
      exact hbefore'.mono hsub
    · rw [hrecorded, List.mem_append, List.mem_singleton, not_or]
      refine ⟨hother.isNew, fun heq => hq ?_⟩
      have hholds := hother.holds
      rw [heq, hins.holds] at hholds
      exact (Option.some.inj hholds).symm
  · intro q tx' hq
    rw [show (s.endTx r .committed).txs q = _ from Function.update_apply ..] at hq
    split at hq
    · cases hq
    · exact h.sent q tx' hq
  · intro q name' htxs hawaited
    rw [hrecorded, List.mem_append, List.mem_singleton]
    by_cases hqr : q = r
    · subst hqr
      obtain ⟨w, hw, hversion⟩ := written_of_awaited hawaited
      obtain rfl := h.written q tx w (by rw [htx]; rfl) hw
      rw [hname] at hversion
      exact Or.inr (Option.some.inj hversion).symm
    · rw [show (s.endTx r .committed).txs q = s.txs q from Function.update_of_ne hqr _ _] at htxs
      exact Or.inl (h.answered q name' htxs hawaited)

/-- **The head of the loop.** -/
theorem Inv.check (h : Inv fsys s) (hs : step fsys s (.check r) = some s') : Inv fsys s' := by
  have hknows := h.knows r
  rw [step] at hs
  split at hs
  · rename_i hstage
    obtain rfl := Option.some.inj hs
    rw [hstage] at hknows
    exact h.move _ rfl rfl rfl rfl hknows rfl rfl
  · rename_i name rest hstage
    rw [hstage] at hknows
    split at hs
    · cases hs
    split at hs
    · rename_i hname
      obtain rfl := Option.some.inj hs
      exact h.move _ rfl rfl rfl rfl (Fsys.RecordedUpTo.next hknows hname) rfl rfl
    · obtain rfl := Option.some.inj hs
      exact h.move _ rfl rfl rfl rfl hknows rfl rfl
  · cases hs

/-- The body is executed. -/
theorem Inv.apply (h : Inv fsys s) (hs : step fsys s (.apply r) = some s') : Inv fsys s' := by
  rw [step] at hs
  split at hs
  · rename_i name body rest tx hstage htx
    obtain rfl := Option.some.inj hs
    have hknows := h.knows r
    rw [hstage] at hknows
    obtain rfl : tx = ⟨none, none⟩ :=
      h.written r tx _ (by rw [htx]; rfl) (by rw [hstage]; rfl)
    refine h.update (.active ⟨statement body, none⟩) (.recording name body rest) rfl
      (fun q name _ hq => hq) rfl rfl hknows ?_ ?_ (by simp) (by simp)
    · intro tx w htx hw
      exact Option.some.inj (htx.symm.trans hw)
    · intro tx name htx hname
      obtain rfl := Option.some.inj htx
      cases hname
  · cases hs

/-- **The `INSERT`.** The name is new, and no other open transaction has inserted it. -/
theorem Inv.insert (h : Inv fsys s) (hs : step fsys s (.insert r) = some s') : Inv fsys s' := by
  rw [step] at hs
  split at hs
  · rename_i name body rest tx hstage htx
    split at hs
    · cases hs
    rename_i hguard
    obtain rfl := Option.some.inj hs
    rw [not_or, not_or, not_not] at hguard
    obtain ⟨-, hnew, hfree⟩ := hguard
    have hknows := h.knows r
    rw [hstage] at hknows
    obtain rfl : tx = ⟨statement body, none⟩ :=
      h.written r tx _ (by rw [htx]; rfl) (by rw [hstage]; rfl)
    refine h.update (.active ⟨statement body, some name⟩) (.committing name body rest)
      rfl ?_ rfl rfl hknows ?_ ?_ (by simp) (by simp)
    · intro q name' _ hq
      have hne : name' ≠ name := by
        rintro rfl
        rw [hfree] at hq
        cases hq
      exact (Function.update_of_ne hne _ _).trans hq
    · intro tx w htx hw
      exact Option.some.inj (htx.symm.trans hw)
    · intro tx name' htx hname
      obtain rfl := Option.some.inj htx
      obtain rfl := Option.some.inj hname
      refine ⟨?_, ⟨rest, hknows.1⟩, hnew, Function.update_self ..⟩
      rw [Fsys.entry, hknows.2, Option.bind_some]
  · cases hs

/-- A transaction begins. -/
theorem Inv.begin (h : Inv fsys s) (hs : step fsys s (.begin r) = some s') : Inv fsys s' := by
  rw [step] at hs
  split at hs
  · rename_i name body rest hstage
    obtain rfl := Option.some.inj hs
    have hknows := h.knows r
    rw [hstage] at hknows
    refine h.update (.active ⟨none, none⟩) (.applying name body rest) rfl
      (fun q name _ hq => hq) rfl rfl hknows ?_ ?_ (by simp) (by simp)
    · intro tx w htx hw
      exact Option.some.inj (htx.symm.trans hw)
    · intro tx name htx hname
      obtain rfl := Option.some.inj htx
      cases hname
  · cases hs

/-- The `COMMIT` is sent. -/
theorem Inv.commit (h : Inv fsys s) (hs : step fsys s (.commit r) = some s') : Inv fsys s' := by
  rw [step] at hs
  split at hs
  · rename_i name body rest tx hstage htx
    obtain rfl := Option.some.inj hs
    have hknows := h.knows r
    rw [hstage] at hknows
    have hopen : (s.txs r).open? = some tx := by
      rw [htx]
      rfl
    obtain rfl : tx = ⟨statement body, some name⟩ :=
      h.written r tx _ hopen (by rw [hstage]; rfl)
    refine h.update _ (.awaiting name body rest) rfl
      (fun q name _ hq => hq) rfl rfl hknows ?_ ?_ ?_ (by simp)
    · intro tx w htx hw
      exact Option.some.inj (htx.symm.trans hw)
    · intro tx' name' htx' hname
      obtain rfl := Option.some.inj htx'
      exact h.inserted r _ name' hopen hname
    · intro tx' htx'
      obtain rfl := ServerTx.committing.inj htx'
      simp
  · cases hs

/-- The answer to a `COMMIT`. -/
theorem Inv.answer (h : Inv fsys s) (hs : step fsys s (.answer r) = some s') : Inv fsys s' := by
  rw [step] at hs
  split at hs
  · rename_i name body rest hstage htx
    obtain rfl := Option.some.inj hs
    have hknows := h.knows r
    rw [hstage] at hknows
    have hname := h.answered r name htx (by rw [hstage]; rfl)
    exact h.update (.none) (.checking rest) rfl (fun q name _ hq => hq) rfl rfl
      (hknows.1.next hname) (fun _ _ htx => by cases htx) (fun _ _ htx => by cases htx)
      (by simp) (by simp)
  · cases hs

/-- The call returns. -/
theorem Inv.unlock (h : Inv fsys s) {received : Bool}
    (hs : step fsys s (.unlock r received) = some s') : Inv fsys s' := by
  rw [step] at hs
  split at hs
  · rename_i ok hstage
    have hknows := h.knows r
    rw [hstage] at hknows
    split at hs
    · obtain rfl := Option.some.inj hs
      exact h.move (.returned ok) rfl rfl rfl rfl (by cases ok <;> exact hknows) rfl rfl
    · obtain rfl := Option.some.inj hs
      cases received <;>
        exact h.move (.returned ok) rfl rfl rfl rfl (by cases ok <;> exact hknows) rfl rfl
  · cases hs

/-- **Every action keeps the invariant.** -/
theorem Inv.step (h : Inv fsys s) {a : Action} (hs : step fsys s a = some s') : Inv fsys s' := by
  cases a with
  | check r => exact h.check hs
  | apply r => exact h.apply hs
  | insert r => exact h.insert hs
  | acquire r c =>
      rw [Migrate.step] at hs
      split at hs
      · split at hs
        · cases hs
        · obtain rfl := Option.some.inj hs
          exact h.move .locking rfl rfl rfl rfl trivial rfl rfl
      · cases hs
  | lock r =>
      rw [Migrate.step] at hs
      split at hs
      · split at hs
        · obtain rfl := Option.some.inj hs
          exact h.move .creating rfl rfl rfl rfl trivial rfl rfl
        · cases hs
      · cases hs
  | createTable r =>
      rw [Migrate.step] at hs
      split at hs
      · obtain rfl := Option.some.inj hs
        exact h.move .globbing rfl rfl rfl rfl trivial rfl rfl
      · cases hs
  | glob r =>
      rw [Migrate.step] at hs
      split at hs
      · obtain rfl := Option.some.inj hs
        exact h.move (.checking fsys.names) rfl rfl rfl rfl ⟨[], rfl, by simp⟩ rfl rfl
      · cases hs
  | readFile r =>
      rw [Migrate.step] at hs
      split at hs
      · rename_i name rest hstage
        obtain ⟨body, hbody, rfl⟩ := Option.map_eq_some_iff.mp hs
        have hknows := h.knows r
        rw [hstage] at hknows
        exact h.move (.beginning name body rest) rfl rfl rfl rfl ⟨hknows, hbody⟩ rfl rfl
      · cases hs
  | begin r => exact h.begin hs
  | commit r => exact h.commit hs
  | serverCommit r =>
      rw [Migrate.step] at hs
      split at hs
      · rename_i tx htx
        obtain rfl := Option.some.inj hs
        exact h.serverCommit htx
      · cases hs
  | answer r => exact h.answer hs
  | rollback r =>
      rw [Migrate.step] at hs
      split at hs
      · obtain rfl := Option.some.inj hs
        exact h.update _ (s.stage r) rfl (fun q name hq => endTx_keyLock .none hq) rfl
          (Function.update_eq_self r _).symm (h.knows r) (fun _ _ htx => by cases htx)
          (fun _ _ htx => by cases htx) (by simp) (by simp)
      · cases hs
  | fail r =>
      rw [Migrate.step] at hs
      split at hs
      · obtain rfl := Option.some.inj hs
        exact h.move (.unlocking false) rfl rfl rfl rfl trivial rfl rfl
      · cases hs
  | unlock r received => exact h.unlock hs
  | loseSession c =>
      obtain rfl := Option.some.inj hs
      exact ⟨h.log, h.inOrder, h.knows, h.written, h.inserted, h.sent, h.answered⟩
  | crash r =>
      rw [Migrate.step] at hs
      split at hs
      · obtain rfl := Option.some.inj hs
        exact h.move .crashed rfl rfl rfl rfl trivial rfl rfl
      · cases hs

end Steps

end FlagPlane.Migrate
