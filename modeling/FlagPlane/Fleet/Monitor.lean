import FlagPlane.Fleet.Agreement

/-!
# FlagPlane.Fleet.Monitor

**`pkg/chaoskit/fleet.go`**: the fleet of clients that the chaos and soak drivers watch. Its checks
look at one member after another while writers, frames and reconciles go on, so what they have read
of a fleet is no state that the fleet was ever in.

`violations_iff` says what the monotonicity check detects: a sample below an earlier one of
the same member, and nothing else. `monitored_fleet` puts the fleet over the plane: there the check
never fires, and a convergence that `WaitConverged` has reported, although put together from
moments, holds of all members at once and from then on.
-/

namespace FlagPlane

/-! ### The fleet -/

/-- `Fleet`: the members by their ids, and what its mutex guards. -/
structure Fleet where
  members : List Nat
  lastVersion : Nat → Option Int
  violations : List String
  samples : Nat

namespace Fleet

def empty : Fleet := ⟨[], fun _ => none, [], 0⟩

/-- `SpawnFleet` takes in a member that has started. -/
def spawned (f : Fleet) (id : Nat) (version : Int) : Fleet :=
  { f with
    members := f.members ++ [id]
    lastVersion := Function.update f.lastVersion id (some version) }

/-- The end of `SpawnFleet`: the members by id. -/
def sorted (f : Fleet) : Fleet :=
  { f with members := f.members.insertionSort (· ≤ ·) }

/-- The text of a violation. -/
def regression (id : Nat) (prev v : Int) : String :=
  "client " ++ toString id ++ ": config_version regressed " ++ toString prev ++ " -> " ++ toString v

/-- `sampleOnce` on one member whose version it has read. -/
def sample (f : Fleet) (id : Nat) (v : Int) : Fleet where
  members := f.members
  lastVersion :=
    if v > (f.lastVersion id).getD 0 then Function.update f.lastVersion id (some v)
    else f.lastVersion
  violations :=
    match f.lastVersion id with
    | some prev => if v < prev then f.violations ++ [regression id prev v] else f.violations
    | none => f.violations
  samples := f.samples + 1

end Fleet

/-! ### What is made of the versions read -/

/-- The versions of the members, one read after another. -/
abbrev Readings := List (Nat × Int)

namespace Readings

/-- `laggards`. -/
def laggards (r : Readings) (target : Int) : Readings :=
  r.filter fun x => x.2 < target

/-- `joinLaggards`, from the `i`-th on. -/
def joinFrom (total limit : Nat) : Nat → Readings → String
  | _, [] => ""
  | i, (id, v) :: rest =>
    if i ≥ limit then " ...(+" ++ toString (total - limit) ++ " more)"
    else
      (if i > 0 then ", " else "") ++ "client " ++ toString id ++ "@" ++ toString v ++
        joinFrom total limit (i + 1) rest

def joinLaggards (l : Readings) (limit : Nat) : String := joinFrom l.length limit 0 l

/-- `AssertNoneBelow`: the text of its error. -/
def assertNoneBelow (r : Readings) (floor : Int) : Option String :=
  if r.laggards floor = [] then none
  else some (toString (r.laggards floor).length ++ " clients regressed below last-known-good " ++
    toString floor ++ ": " ++ (r.laggards floor).joinLaggards 8)

/-- `CountAtLeast`. -/
def countAtLeast (r : Readings) (v : Int) : Nat :=
  r.countP fun x => x.2 ≥ v

/-- `VersionSpread`: the least and the greatest version, 0 and 0 of no member. -/
def versionSpread : Readings → Int × Int
  | [] => (0, 0)
  | (_, v) :: rest =>
    rest.foldl (fun s x => (if x.2 < s.1 then x.2 else s.1, if x.2 > s.2 then x.2 else s.2)) (v, v)

end Readings

/-- What `WaitConverged` meets at one poll. -/
structure FleetPoll where
  readings : Readings
  /-- The deadline has passed. -/
  late : Bool
  /-- The context is done while it waits for the next poll. -/
  cancelled : Bool

/-- What `WaitConverged` returns. -/
inductive WaitResult
  | converged
  | timedOut (lagging : Readings) (text : String)
  | cancelled
  deriving DecidableEq

/-- `WaitConverged` of `n` members over its polls; `none` while it still waits. -/
def waitConverged (n : Nat) (target : Int) (timeout : String) : List FleetPoll → Option WaitResult
  | [] => none
  | p :: polls =>
    let lagging := p.readings.laggards target
    if lagging = [] then some .converged
    else if p.late then
      some (.timedOut lagging (toString lagging.length ++ "/" ++ toString n ++
        " clients did not converge to version " ++ toString target ++ " within " ++ timeout ++ ": " ++
        lagging.joinLaggards 8))
    else if p.cancelled then some .cancelled
    else waitConverged n target timeout polls

section Readings

variable {r : Readings} {target v : Int}

theorem Readings.laggards_eq_nil : r.laggards target = [] ↔ ∀ x ∈ r, target ≤ x.2 := by
  rw [laggards, List.filter_eq_nil_iff]
  simp

theorem Readings.assertNoneBelow_eq_none :
    r.assertNoneBelow target = none ↔ ∀ x ∈ r, target ≤ x.2 := by
  rw [← laggards_eq_nil, assertNoneBelow]
  split <;> simp [*]

theorem Readings.countAtLeast_eq_length :
    r.countAtLeast target = r.length ↔ ∀ x ∈ r, target ≤ x.2 := by
  rw [countAtLeast, List.countP_eq_length]
  simp

/-- The least version of a spread is no lower than what every version read is. -/
theorem Readings.le_versionSpread (hne : r ≠ []) (h : ∀ x ∈ r, target ≤ x.2) :
    target ≤ r.versionSpread.1 := by
  cases r with
  | nil => exact absurd rfl hne
  | cons x rest =>
      rw [List.forall_mem_cons] at h
      obtain ⟨hx, hrest⟩ := h
      rw [versionSpread]
      suffices H : ∀ s : Int × Int, target ≤ s.1 → target ≤ (rest.foldl (fun s x =>
          (if x.2 < s.1 then x.2 else s.1, if x.2 > s.2 then x.2 else s.2)) s).1 from H _ hx
      clear hne
      induction rest with
      | nil => exact fun _ hs => hs
      | cons y rest ih =>
          rw [List.forall_mem_cons] at hrest
          intro s hs
          refine ih hrest.2 _ ?_
          dsimp only
          split
          · exact hrest.1
          · exact hs

/-- A wait that ends in convergence has had a poll without laggards. -/
theorem waitConverged_eq_converged {n : Nat} {timeout : String} {polls : List FleetPoll}
    (h : waitConverged n target timeout polls = some .converged) :
    ∃ p ∈ polls, p.readings.laggards target = [] := by
  induction polls with
  | nil => cases h
  | cons p polls ih =>
      rw [waitConverged] at h
      by_cases hnil : p.readings.laggards target = []
      · exact ⟨p, List.mem_cons_self, hnil⟩
      · rw [if_neg hnil] at h
        split at h
        · cases h
        split at h
        · cases h
        · obtain ⟨p', hp', hnil'⟩ := ih h
          exact ⟨p', List.mem_cons_of_mem _ hp', hnil'⟩

end Readings

/-! ### What the monotonicity check detects -/

/-- The samples of one member. -/
def samplesOf (id : Nat) (samples : Readings) : List Int :=
  (samples.filter fun x => x.1 = id).map Prod.snd

section Monitor

variable {f : Fleet} {id id' : Nat} {v prev : Int}

theorem Fleet.sample_lastVersion_of_ne (h : id' ≠ id) :
    (f.sample id v).lastVersion id' = f.lastVersion id' := by
  rw [sample]
  dsimp only
  split
  · rw [Function.update_of_ne h]
  · rfl

theorem Fleet.sample_isSome (h : (f.lastVersion id').isSome) :
    ((f.sample id v).lastVersion id').isSome := by
  rw [sample]
  dsimp only
  split
  · rw [Function.update_apply]
    split
    · rfl
    · exact h
  · exact h

/-- A sample that is no regression is the last version from then on. -/
theorem Fleet.sample_lastVersion (hprev : f.lastVersion id = some prev) (hle : prev ≤ v) :
    (f.sample id v).lastVersion id = some v := by
  rw [sample]
  dsimp only
  rw [hprev, Option.getD_some]
  split
  · rw [Function.update_self]
  · rw [hprev]
    exact congrArg some (by omega)

theorem Fleet.sample_violations (hprev : f.lastVersion id = some prev) :
    (f.sample id v).violations = [] ↔ f.violations = [] ∧ prev ≤ v := by
  rw [sample]
  dsimp only
  rw [hprev]
  dsimp only
  split
  · simpa using fun _ => by omega
  · simpa using fun _ => by omega

theorem samplesOf_cons_self (samples : Readings) :
    samplesOf id ((id, v) :: samples) = v :: samplesOf id samples := by
  simp [samplesOf]

theorem samplesOf_cons_of_ne (samples : Readings) (h : id' ≠ id) :
    samplesOf id' ((id, v) :: samples) = samplesOf id' samples := by
  simp [samplesOf, Ne.symm h]

/-- **The check is exact.** Of members that the fleet has taken in, it records a violation exactly
when a sample of one of them is below an earlier one, or below the version the member had started
with. -/
theorem violations_iff (samples : Readings) (f : Fleet)
    (hmembers : ∀ x ∈ samples, (f.lastVersion x.1).isSome) :
    (samples.foldl (fun f x => f.sample x.1 x.2) f).violations = [] ↔
      f.violations = [] ∧ ∀ id v₀, f.lastVersion id = some v₀ →
        (v₀ :: samplesOf id samples).Pairwise (· ≤ ·) := by
  induction samples generalizing f with
  | nil => simp [samplesOf]
  | cons x samples ih =>
      obtain ⟨id, v⟩ := x
      rw [List.forall_mem_cons] at hmembers
      obtain ⟨prev, hprev⟩ := Option.isSome_iff_exists.mp hmembers.1
      have hstill : ∀ x ∈ samples, ((f.sample id v).lastVersion x.1).isSome := fun x hx =>
        Fleet.sample_isSome (hmembers.2 x hx)
      rw [List.foldl_cons, ih _ hstill, Fleet.sample_violations hprev, and_assoc]
      refine and_congr_right fun _ => ?_
      constructor
      · intro h
        obtain ⟨hle, hall⟩ := h
        intro id' v₀ hv₀
        by_cases hid : id' = id
        · subst hid
          obtain rfl := Option.some.inj (hprev.symm.trans hv₀)
          rw [samplesOf_cons_self, List.pairwise_cons_cons_iff_of_trans]
          exact ⟨hle, hall id' v (Fleet.sample_lastVersion hprev hle)⟩
        · rw [samplesOf_cons_of_ne samples hid]
          exact hall id' v₀ ((Fleet.sample_lastVersion_of_ne hid).trans hv₀)
      · intro hall
        have hself := hall id prev hprev
        rw [samplesOf_cons_self, List.pairwise_cons_cons_iff_of_trans] at hself
        refine ⟨hself.1, fun id' v₀ hv₀ => ?_⟩
        by_cases hid : id' = id
        · subst hid
          obtain rfl := Option.some.inj ((Fleet.sample_lastVersion hprev hself.1).symm.trans hv₀)
          exact hself.2
        · rw [Fleet.sample_lastVersion_of_ne hid] at hv₀
          have hother := hall id' v₀ hv₀
          rwa [samplesOf_cons_of_ne samples hid] at hother

end Monitor

/-- Members 0 and 1 started at versions 4 and 0; the second sample of 0 is below the first. -/
def twoMembers : Fleet := (Fleet.empty.spawned 0 4).spawned 1 0

theorem violations_iff_twoMembers :
    ([(0, 6), (1, 2), (0, 5)].foldl (fun f x => f.sample x.1 x.2) twoMembers).violations = [] ↔
      twoMembers.violations = [] ∧ ∀ id v₀, twoMembers.lastVersion id = some v₀ →
        (v₀ :: samplesOf id [(0, 6), (1, 2), (0, 5)]).Pairwise (· ≤ ·) :=
  violations_iff [(0, 6), (1, 2), (0, 5)] twoMembers (by decide)

/-! ### The fleet over the plane -/

/-- A look at the members, one after another. -/
structure Scan where
  rest : List Nat
  readings : Readings

structure Watch where
  plane : Plane
  fleet : Fleet
  /-- `SpawnFleet` has returned. -/
  started : Bool
  /-- The look that a poll of `WaitConverged` is taking. -/
  scan : Option Scan
  /-- The polls so far. -/
  polls : List FleetPoll

inductive WatchAction
  | plane (a : PlaneAction)
  /-- `Start` of a member returns, and `SpawnFleet` takes it in. -/
  | spawn (g : Nat)
  | start
  /-- `sampleOnce` comes to a member. -/
  | sample (g : Nat)
  | beginScan
  /-- `laggards` comes to a member. -/
  | read
  | endScan (late cancelled : Bool)

def watchStep (w : Watch) : WatchAction → Option Watch
  | .plane a => (planeStep w.plane a).map fun p => { w with plane := p }
  | .spawn g =>
    if w.started ∨ g ∈ w.fleet.members then none
    else (w.plane.versionOf g).map fun v => { w with fleet := w.fleet.spawned g v }
  | .start =>
    if w.started ∨ w.fleet.members = [] then none
    else some { w with fleet := w.fleet.sorted, started := true }
  | .sample g =>
    if w.started ∧ g ∈ w.fleet.members then
      (w.plane.versionOf g).map fun v => { w with fleet := w.fleet.sample g v }
    else none
  | .beginScan =>
    match w.started, w.scan with
    | true, none => some { w with scan := some ⟨w.fleet.members, []⟩ }
    | _, _ => none
  | .read =>
    match w.scan with
    | some ⟨g :: rest, readings⟩ =>
      (w.plane.versionOf g).map fun v => { w with scan := some ⟨rest, readings ++ [(g, v)]⟩ }
    | _ => none
  | .endScan late cancelled =>
    match w.scan with
    | some ⟨[], readings⟩ =>
      some { w with scan := none, polls := w.polls ++ [⟨readings, late, cancelled⟩] }
    | _ => none

/-- Nobody has been spawned yet. -/
def Watch.start (rows : List FlagRow) : Watch :=
  ⟨Plane.migrated rows, Fleet.empty, false, none, []⟩

/-- Versions that were read and may have been passed since. -/
def Readings.Past (r : Readings) (p : Plane) : Prop :=
  ∀ x ∈ r, ∃ v, p.versionOf x.1 = some v ∧ x.2 ≤ v

structure WatchInv (w : Watch) : Prop where
  /-- Every member runs, no lower than it was last seen. -/
  members : ∀ g ∈ w.fleet.members, ∃ last v, w.fleet.lastVersion g = some last ∧
    w.plane.versionOf g = some v ∧ last ≤ v
  violations : w.fleet.violations = []
  scan : ∀ sc, w.scan = some sc → w.started = true ∧ sc.readings.Past w.plane ∧
    sc.readings.map Prod.fst ++ sc.rest = w.fleet.members
  polls : ∀ p ∈ w.polls, w.started = true ∧ p.readings.Past w.plane ∧
    p.readings.map Prod.fst = w.fleet.members

section Watch

variable {w w' : Watch} {p p' : Plane} {g : Nat} {v target : Int}

/-- No step takes a version down. -/
theorem versionOf_planeStep {a : PlaneAction} (hs : planeStep p a = some p')
    (hv : p.versionOf g = some v) : ∃ v', p'.versionOf g = some v' ∧ v ≤ v' := by
  obtain ⟨c, tasks, hc, rfl⟩ := Plane.versionOf_eq_some hv
  obtain ⟨c', tasks', hc', hle⟩ := planeStep_version hs hc
  exact ⟨c'.configVersion, by rw [Plane.versionOf, hc'], hle⟩

theorem Readings.past_nil (p : Plane) : Readings.Past [] p := by
  intro x hx
  cases hx

theorem Readings.Past.planeStep {r : Readings} (h : r.Past p) {a : PlaneAction}
    (hs : FlagPlane.planeStep p a = some p') : r.Past p' := by
  intro x hx
  obtain ⟨v, hv, hle⟩ := h x hx
  obtain ⟨v', hv', hle'⟩ := versionOf_planeStep hs hv
  exact ⟨v', hv', hle.trans hle'⟩

/-- No version goes down. -/
theorem WatchInv.plane (h : WatchInv w) {a : PlaneAction} (hs : watchStep w (.plane a) = some w') :
    WatchInv w' := by
  obtain ⟨p, hp, rfl⟩ := Option.map_eq_some_iff.mp hs
  refine ⟨fun g hg => ?_, h.violations, fun sc hsc => ?_, fun poll hpoll => ?_⟩
  · obtain ⟨last, v, hlast, hv, hle⟩ := h.members g hg
    obtain ⟨v', hv', hle'⟩ := versionOf_planeStep hp hv
    exact ⟨last, v', hlast, hv', hle.trans hle'⟩
  · obtain ⟨hstarted, hpast, hrest⟩ := h.scan sc hsc
    exact ⟨hstarted, hpast.planeStep hp, hrest⟩
  · obtain ⟨hstarted, hpast, hall⟩ := h.polls poll hpoll
    exact ⟨hstarted, hpast.planeStep hp, hall⟩

/-- The member that is taken in starts at the version that is read. -/
theorem WatchInv.spawn (h : WatchInv w) (hs : watchStep w (.spawn g) = some w') : WatchInv w' := by
  rw [watchStep] at hs
  split at hs
  · cases hs
  rename_i hnot
  rw [not_or] at hnot
  obtain ⟨v, hv, rfl⟩ := Option.map_eq_some_iff.mp hs
  refine ⟨fun g' hg' => ?_, h.violations, fun sc hsc => ?_, fun poll hpoll => ?_⟩
  · by_cases hg : g' = g
    · subst hg
      exact ⟨v, v, Function.update_self .., hv, le_refl _⟩
    · have hold : g' ∈ w.fleet.members :=
        (List.mem_append.mp hg').resolve_right fun hnew => hg (List.mem_singleton.mp hnew)
      obtain ⟨last, v', hlast, hv', hle⟩ := h.members g' hold
      exact ⟨last, v', (Function.update_of_ne hg ..).trans hlast, hv', hle⟩
  · exact absurd (h.scan sc hsc).1 hnot.1
  · exact absurd (h.polls poll hpoll).1 hnot.1

/-- The sample is no lower than the last one. -/
theorem WatchInv.sample (h : WatchInv w) (hs : watchStep w (.sample g) = some w') :
    WatchInv w' := by
  rw [watchStep] at hs
  split at hs
  swap
  · cases hs
  rename_i hmember
  obtain ⟨v, hv, rfl⟩ := Option.map_eq_some_iff.mp hs
  obtain ⟨last, v', hlast, hv', hle⟩ := h.members g hmember.2
  obtain rfl := Option.some.inj (hv.symm.trans hv')
  refine ⟨fun g' hg' => ?_, ?_, h.scan, h.polls⟩
  · by_cases hg : g' = g
    · subst hg
      exact ⟨v, v, Fleet.sample_lastVersion hlast hle, hv, le_refl _⟩
    · obtain ⟨last', v', hlast', hv', hle'⟩ := h.members g' hg'
      exact ⟨last', v', (Fleet.sample_lastVersion_of_ne hg).trans hlast', hv', hle'⟩
  · exact (Fleet.sample_violations hlast).mpr ⟨h.violations, hle⟩

theorem WatchInv.read (h : WatchInv w) (hs : watchStep w .read = some w') : WatchInv w' := by
  rw [watchStep] at hs
  split at hs
  · rename_i g rest readings hscan
    obtain ⟨v, hv, rfl⟩ := Option.map_eq_some_iff.mp hs
    obtain ⟨hstarted, hpast, hrest⟩ := h.scan _ hscan
    refine ⟨h.members, h.violations, fun sc hsc => ?_, h.polls⟩
    obtain rfl := Option.some.inj hsc
    refine ⟨hstarted, fun x hx => ?_, ?_⟩
    · rcases List.mem_append.mp hx with hold | hnew
      · exact hpast x hold
      · obtain rfl := List.mem_singleton.mp hnew
        exact ⟨v, hv, le_refl _⟩
    · simpa using hrest
  · cases hs

theorem WatchInv.endScan (h : WatchInv w) {late cancelled : Bool}
    (hs : watchStep w (.endScan late cancelled) = some w') : WatchInv w' := by
  rw [watchStep] at hs
  split at hs
  · rename_i readings hscan
    obtain rfl := Option.some.inj hs
    obtain ⟨hstarted, hpast, hrest⟩ := h.scan _ hscan
    refine ⟨h.members, h.violations, (fun sc hsc => by cases hsc), fun poll hpoll => ?_⟩
    rcases List.mem_append.mp hpoll with hold | hnew
    · exact h.polls poll hold
    · obtain rfl := List.mem_singleton.mp hnew
      exact ⟨hstarted, hpast, by simpa using hrest⟩
  · cases hs

/-- **Every step keeps the invariant.** -/
theorem WatchInv.step (h : WatchInv w) {a : WatchAction} (hs : watchStep w a = some w') :
    WatchInv w' := by
  cases a with
  | plane a => exact h.plane hs
  | spawn g => exact h.spawn hs
  | start =>
      rw [watchStep] at hs
      split at hs
      · cases hs
      rename_i hnot
      rw [not_or] at hnot
      obtain rfl := Option.some.inj hs
      refine ⟨fun g hg => ?_, h.violations, fun sc hsc => ?_, fun poll hpoll => ?_⟩
      · exact h.members g ((List.perm_insertionSort _ _).mem_iff.mp hg)
      · exact absurd (h.scan sc hsc).1 hnot.1
      · exact absurd (h.polls poll hpoll).1 hnot.1
  | sample g => exact h.sample hs
  | beginScan =>
      rw [watchStep] at hs
      split at hs
      · rename_i hstarted hscan
        obtain rfl := Option.some.inj hs
        refine ⟨h.members, h.violations, fun sc hsc => ?_, h.polls⟩
        obtain rfl := Option.some.inj hsc
        exact ⟨hstarted, Readings.past_nil w.plane, rfl⟩
      · cases hs
  | read => exact h.read hs
  | endScan late cancelled => exact h.endScan hs

theorem watchInv_start (rows : List FlagRow) : WatchInv (Watch.start rows) where
  members g hg := by cases hg
  violations := rfl
  scan sc hsc := by cases hsc
  polls poll hpoll := by cases hpoll

/-- A poll without laggards: every member has reached the target. -/
theorem WatchInv.converged (h : WatchInv w) {poll : FleetPoll} (hpoll : poll ∈ w.polls)
    (hnil : poll.readings.laggards target = []) :
    ∀ g ∈ w.fleet.members, ∃ v, w.plane.versionOf g = some v ∧ target ≤ v := by
  intro g hg
  obtain ⟨-, hpast, hall⟩ := h.polls poll hpoll
  obtain ⟨x, hx, rfl⟩ := List.mem_map.mp (hall ▸ hg)
  obtain ⟨v, hv, hle⟩ := hpast x hx
  exact ⟨v, hv, (Readings.laggards_eq_nil.mp hnil x hx).trans hle⟩

/-- What holds once `WaitConverged` has reported a convergence, after `n` polls. -/
structure Reached (target : Int) (n : Nat) (w : Watch) : Prop where
  started : w.started = true
  members : ∀ g ∈ w.fleet.members, ∃ v, w.plane.versionOf g = some v ∧ target ≤ v
  scan : ∀ sc, w.scan = some sc → ∀ x ∈ sc.readings, target ≤ x.2
  polls : ∀ poll ∈ w.polls.drop n, ∀ x ∈ poll.readings, target ≤ x.2

/-- Members stay where they are, and whatever is read from then on shows it. -/
theorem Reached.step {n : Nat} (hinv : WatchInv w) (h : Reached target n w) {a : WatchAction}
    (hs : watchStep w a = some w') : Reached target n w' := by
  cases a with
  | plane a =>
      obtain ⟨p, hp, rfl⟩ := Option.map_eq_some_iff.mp hs
      refine ⟨h.started, fun g hg => ?_, h.scan, h.polls⟩
      obtain ⟨v, hv, hle⟩ := h.members g hg
      obtain ⟨v', hv', hle'⟩ := versionOf_planeStep hp hv
      exact ⟨v', hv', hle.trans hle'⟩
  | spawn g | start =>
      rw [watchStep, if_pos (Or.inl h.started)] at hs
      cases hs
  | sample g =>
      rw [watchStep] at hs
      split at hs
      swap
      · cases hs
      obtain ⟨v, -, rfl⟩ := Option.map_eq_some_iff.mp hs
      exact ⟨h.started, h.members, h.scan, h.polls⟩
  | beginScan =>
      rw [watchStep] at hs
      split at hs
      · obtain rfl := Option.some.inj hs
        refine ⟨h.started, h.members, fun sc hsc x hx => ?_, h.polls⟩
        obtain rfl := Option.some.inj hsc
        cases hx
      · cases hs
  | read =>
      rw [watchStep] at hs
      split at hs
      · rename_i g rest readings hscan
        obtain ⟨v, hv, rfl⟩ := Option.map_eq_some_iff.mp hs
        refine ⟨h.started, h.members, fun sc hsc x hx => ?_, h.polls⟩
        obtain rfl := Option.some.inj hsc
        rcases List.mem_append.mp hx with hold | hnew
        · exact h.scan _ hscan x hold
        · obtain rfl := List.mem_singleton.mp hnew
          obtain ⟨-, -, hrest⟩ := hinv.scan _ hscan
          obtain ⟨v', hv', hle⟩ := h.members g (hrest ▸ by simp)
          exact Option.some.inj (hv.symm.trans hv') ▸ hle
      · cases hs
  | endScan late cancelled =>
      rw [watchStep] at hs
      split at hs
      · rename_i readings hscan
        obtain rfl := Option.some.inj hs
        refine ⟨h.started, h.members, (fun sc hsc => by cases hsc), fun poll hpoll => ?_⟩
        rw [List.drop_append, List.mem_append] at hpoll
        rcases hpoll with hold | hnew
        · exact h.polls poll hold
        · obtain rfl := List.mem_singleton.mp (List.mem_of_mem_drop hnew)
          exact h.scan _ hscan
      · cases hs

/-- The order of the plane, along a run of the fleet over it. -/
def Watch.Orderly (w : Watch) : WatchAction → Prop
  | .plane a => w.plane.Orderly a
  | _ => True

/-- Only the plane's own actions change the plane. -/
theorem watchStep_plane {a : WatchAction} (hs : watchStep w a = some w') :
    w'.plane = w.plane ∨ ∃ b, a = .plane b ∧ planeStep w.plane b = some w'.plane := by
  cases a with
  | plane b =>
      obtain ⟨p, hp, rfl⟩ := Option.map_eq_some_iff.mp hs
      exact Or.inr ⟨b, rfl, hp⟩
  | spawn g | sample g =>
      rw [watchStep] at hs
      split at hs <;> first
        | cases hs
        | (obtain ⟨v, -, rfl⟩ := Option.map_eq_some_iff.mp hs
           exact Or.inl rfl)
  | read =>
      rw [watchStep] at hs
      split at hs
      · obtain ⟨v, -, rfl⟩ := Option.map_eq_some_iff.mp hs
        exact Or.inl rfl
      · cases hs
  | start | beginScan | endScan _ _ =>
      rw [watchStep] at hs
      split at hs <;> first
        | (obtain rfl := Option.some.inj hs
           exact Or.inl rfl)
        | cases hs

theorem inOrder_watchStep {rows : List FlagRow} {a : WatchAction}
    (h : ∃ log, InOrder rows log w.plane) (hord : w.Orderly a) (hs : watchStep w a = some w') :
    ∃ log, InOrder rows log w'.plane := by
  rcases watchStep_plane hs with heq | ⟨b, rfl, hb⟩
  · rwa [heq]
  · obtain ⟨log, h⟩ := h
    exact h.step hord hb

end Watch

section Runs

variable {rows : List FlagRow} {as : List WatchAction} {w : Watch}

/-- **The fleet over the plane.** Along every run, in order or not: the monotonicity check records
no violation; and when `WaitConverged` reports that the members have converged to a version, each
of them is there at that moment and in every later state, and every later look at the fleet says
so: `AssertNoneBelow` finds nothing, `CountAtLeast` counts all, `VersionSpread` starts no lower. -/
theorem monitored_fleet (hrun : exec watchStep (Watch.start rows) as = some w) :
    w.fleet.violations = [] ∧
      ∀ target timeout, w.scan = none →
        waitConverged w.fleet.members.length target timeout w.polls = some .converged →
        ∀ as' w', exec watchStep w as' = some w' →
          (∀ g ∈ w'.fleet.members, ∃ v, w'.plane.versionOf g = some v ∧ target ≤ v) ∧
          ∀ poll ∈ w'.polls.drop w.polls.length,
            poll.readings.assertNoneBelow target = none ∧
            poll.readings.countAtLeast target = w'.fleet.members.length ∧
            (w'.fleet.members ≠ [] → target ≤ poll.readings.versionSpread.1) := by
  have hinv : WatchInv w := exec_preserves (fun h hs => h.step hs) (watchInv_start rows) hrun
  refine ⟨hinv.violations, fun target timeout hscan hconverged as' w' hrun' => ?_⟩
  obtain ⟨poll, hpoll, hnil⟩ := waitConverged_eq_converged hconverged
  have hreached : Reached target w.polls.length w := by
    refine ⟨(hinv.polls poll hpoll).1, hinv.converged hpoll hnil, fun sc hsc => ?_, ?_⟩
    · rw [hscan] at hsc
      cases hsc
    · rw [List.drop_length]
      exact fun poll hpoll => by cases hpoll
  obtain ⟨hinv', hreached'⟩ : WatchInv w' ∧ Reached target w.polls.length w' :=
    exec_preserves (I := fun w' => WatchInv w' ∧ Reached target w.polls.length w')
      (fun h hs => ⟨h.1.step hs, h.2.step h.1 hs⟩) ⟨hinv, hreached⟩ hrun'
  refine ⟨hreached'.members, fun poll hpoll => ?_⟩
  have hall := hreached'.polls poll hpoll
  obtain ⟨-, -, hmembers⟩ := hinv'.polls poll (List.mem_of_mem_drop hpoll)
  have hlength : poll.readings.length = w'.fleet.members.length := by
    rw [← hmembers, List.length_map]
  refine ⟨Readings.assertNoneBelow_eq_none.mpr hall, ?_, fun hne => ?_⟩
  · rw [← hlength]
    exact Readings.countAtLeast_eq_length.mpr hall
  · refine Readings.le_versionSpread (fun hnil => hne ?_) hall
    rw [← hmembers, hnil, List.map_nil]

/-- Two clients boot and are spawned; one toggle is made, and the poll of `WaitConverged` comes to
client 0 before client 1 has its frame. -/
def watchedToggle : List WatchAction :=
  (boot 0 ++ boot 1).map .plane ++ [.spawn 1, .spawn 0, .start, .sample 0] ++
    (toggleCall 0).map .plane ++ [.plane (.task 0 0 (.receive 0)), .plane (.task 0 0 .take)] ++
    [.beginScan, .read, .plane (.task 1 0 (.receive 0)), .sample 1, .plane (.task 1 0 .take), .read,
      .endScan false false]

/-- Another toggle, and another look. -/
def laterLook : List WatchAction :=
  (toggleCall 1).map .plane ++ [.beginScan, .read, .read, .endScan true false]

theorem monitored_fleet_watchedToggle :
    ∃ w w', exec watchStep (Watch.start [checkoutRow]) watchedToggle = some w ∧
      exec watchStep w laterLook = some w' ∧ w.fleet.violations = [] ∧
      (∀ g ∈ w'.fleet.members, ∃ v, w'.plane.versionOf g = some v ∧ 1 ≤ v) ∧
      ∀ poll ∈ w'.polls.drop w.polls.length, poll.readings.assertNoneBelow 1 = none := by
  have hrun : ((exec watchStep (Watch.start [checkoutRow]) watchedToggle).bind fun w =>
      (exec watchStep w laterLook).map fun _ => (w.scan.isNone,
        waitConverged w.fleet.members.length 1 "20s" w.polls)) = some (true, some .converged) := by
    decide
  obtain ⟨w, hw, hrun⟩ := Option.bind_eq_some_iff.mp hrun
  obtain ⟨w', hw', hrun⟩ := Option.map_eq_some_iff.mp hrun
  obtain ⟨hscan, hconverged⟩ := Prod.mk.inj hrun
  obtain ⟨hviolations, hall⟩ := monitored_fleet hw
  obtain ⟨hmembers, hpolls⟩ :=
    hall 1 "20s" (Option.isNone_iff_eq_none.mp hscan) hconverged laterLook w' hw'
  exact ⟨w, w', hw, hw', hviolations, hmembers, fun poll hpoll => (hpolls poll hpoll).1⟩

/-- **What a passed convergence check means.** When the plane has run in order and `WaitConverged`
has reported the version that the log is at, every member holds the table. -/
theorem converged_fleet_holds_table (hrows : Migrated rows) (hkeys : ∀ r ∈ rows, r.key ≠ "")
    (hord : ∀ tr ∈ transitions watchStep (Watch.start rows) as, tr.pre.Orderly tr.act)
    (hrun : exec watchStep (Watch.start rows) as = some w) {n : Nat} {timeout : String}
    (hconverged : waitConverged n (getLatestVersion w.plane.service.db.events) timeout w.polls =
      some .converged) :
    ∀ g ∈ w.fleet.members, ∃ c tasks, w.plane.replicas g = .running c tasks ∧
      c.configVersion = getLatestVersion w.plane.service.db.events ∧
      c.flags = clientView.table w.plane.service.db := by
  have hinv : WatchInv w := exec_preserves (fun h hs => h.step hs) (watchInv_start rows) hrun
  obtain ⟨log, h⟩ : ∃ log, InOrder rows log w.plane :=
    exec_preserves_of (I := fun w => ∃ log, InOrder rows log w.plane)
      (fun h hC hs => inOrder_watchStep h hC hs) (hrows.inOrder hkeys) hord hrun
  obtain ⟨poll, hpoll, hnil⟩ := waitConverged_eq_converged hconverged
  intro g hg
  obtain ⟨v, hv, hle⟩ := hinv.converged hpoll hnil g hg
  obtain ⟨c, tasks, hc, rfl⟩ := Plane.versionOf_eq_some hv
  obtain ⟨hflags, hge, -⟩ := h.inStep hc
  have hversion : log.version = getLatestVersion w.plane.service.db.events := by
    rw [EventLog.version, h.events]
  have heq : c.configVersion = log.version := le_antisymm hge (hversion.le.trans hle)
  refine ⟨c, tasks, hc, heq.trans hversion, ?_⟩
  rw [hflags, log.upTo_version heq.ge, h.replay_log]

theorem converged_fleet_holds_table_watchedToggle :
    ∃ w, exec watchStep (Watch.start [checkoutRow]) watchedToggle = some w ∧
      w.fleet.members = [0, 1] ∧
      ∀ g ∈ w.fleet.members, ∃ c tasks, w.plane.replicas g = .running c tasks ∧
        c.configVersion = getLatestVersion w.plane.service.db.events ∧
        c.flags = clientView.table w.plane.service.db := by
  have hrun : ((exec watchStep (Watch.start [checkoutRow]) watchedToggle).map fun w =>
      (w.fleet.members, waitConverged 2 (getLatestVersion w.plane.service.db.events) "20s"
        w.polls)) = some ([0, 1], some .converged) := by
    decide
  have hord : ∀ tr ∈ transitions watchStep (Watch.start [checkoutRow]) watchedToggle,
      tr.pre.Orderly tr.act := by
    have hall : (transitions watchStep (Watch.start [checkoutRow]) watchedToggle).all
        (fun tr => match tr.act with
          | .plane a => tr.pre.plane.orderlyChecked a
          | _ => true) = true := by
      decide
    intro tr htr
    have hchecked := List.all_eq_true.mp hall tr htr
    unfold Watch.Orderly
    split
    · rename_i a ha
      rw [ha] at hchecked
      exact tr.pre.plane.orderly_of_checked hchecked
    · trivial
  obtain ⟨w, hw, heq⟩ := Option.map_eq_some_iff.mp hrun
  obtain ⟨hmembers, hconverged⟩ := Prod.mk.inj heq
  exact ⟨w, hw, hmembers,
    converged_fleet_holds_table migrated_checkoutRow checkoutRow_key hord hw hconverged⟩

end Runs

end FlagPlane
