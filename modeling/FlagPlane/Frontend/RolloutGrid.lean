import FlagPlane.Client.Evaluate
import FlagPlane.Frontend.Explain

/-!
# FlagPlane.Frontend.RolloutGrid

**The grid of the rollout visualizer**, `components/explain/RolloutVisualizer.tsx`: a hundred sample
users in the order of their buckets, each coloured by `evaluate` at a percentage that a slider
explores. The page promises that squares flip in place, that the grid fills like a meter, and that
what it shows is what the SDK ships; `rollout_grid` is that promise over every run of the component.
-/

namespace FlagPlane

/-- `EvaluableFlag`. -/
structure EvaluableFlag where
  key : String
  enabled : Bool
  rolloutPercentage : Int
  targetedUsers : List String

/-- `evaluate` of a flag that is there. -/
def EvaluableFlag.evaluate (flag : EvaluableFlag) (userId : String) : EvalTrace :=
  evaluateFlag flag.key flag.enabled flag.rolloutPercentage (flag.targetedUsers.map .str) userId

/-- `SAMPLE`. -/
def sample : List String :=
  (List.range (10 * 10)).map fun i => "user-" ++ toString (i + 1)

structure Cell where
  user : String
  bucket : Int

inductive CellState
  | onRollout
  | onTargeted
  | off
  deriving DecidableEq

/-- The comparison of the `sort`, on users that differ. -/
def Cell.Le (a b : Cell) : Prop :=
  a.bucket < b.bucket ∨ a.bucket = b.bucket ∧ a.user ≤ b.user

instance (a b : Cell) : Decidable (a.Le b) :=
  inferInstanceAs (Decidable (_ ∨ _))

/-- `cells`. -/
def cells (flagKey : String) : List Cell :=
  (sample.map fun user => ⟨user, rolloutBucket flagKey user⟩).insertionSort Cell.Le

/-- `stateOf`. -/
def stateOf (explored : EvaluableFlag) (cell : Cell) : CellState :=
  let t := explored.evaluate cell.user
  if !t.on then .off else if t.reason = .targeted then .onTargeted else .onRollout

/-- `onCount`. -/
def onCount (explored : EvaluableFlag) : Nat :=
  (cells explored.key).countP fun cell => stateOf explored cell ≠ .off

/-! ### The component -/

/-- What the component keeps between two renders, with the flag of the last one. -/
structure Visualizer where
  flag : EvaluableFlag
  pct : Int
  prevFlagPct : Int

inductive VisualizerAction
  /-- The page renders the component with this flag. -/
  | render (flag : EvaluableFlag)
  /-- The slider, or "Reset to actual". -/
  | setPct (pct : Int)

def Visualizer.mount (flag : EvaluableFlag) : Visualizer :=
  ⟨flag, flag.rolloutPercentage, flag.rolloutPercentage⟩

def Visualizer.step (v : Visualizer) : VisualizerAction → Visualizer
  | .render flag =>
    if flag.rolloutPercentage ≠ v.prevFlagPct then
      ⟨flag, flag.rolloutPercentage, flag.rolloutPercentage⟩
    else { v with flag := flag }
  | .setPct pct => { v with pct := pct }

/-- `explored`. -/
def Visualizer.explored (v : Visualizer) : EvaluableFlag :=
  { v.flag with rolloutPercentage := v.pct }

/-- `dirty`. -/
def Visualizer.dirty (v : Visualizer) : Bool :=
  v.pct ≠ v.flag.rolloutPercentage

section Grid

variable {flag : EvaluableFlag} {flagKey : String} {cell : Cell} {p q : Int}

theorem cells_perm (flagKey : String) :
    (cells flagKey).Perm (sample.map fun user => ⟨user, rolloutBucket flagKey user⟩) :=
  List.perm_insertionSort _ _

theorem bucket_of_mem_cells (h : cell ∈ cells flagKey) :
    cell.bucket = rolloutBucket flagKey cell.user := by
  obtain ⟨user, -, rfl⟩ := List.mem_map.mp ((cells_perm flagKey).mem_iff.mp h)
  rfl

theorem pairwise_cells (flagKey : String) :
    (cells flagKey).Pairwise fun a b => a.bucket ≤ b.bucket := by
  have : Std.Total Cell.Le := ⟨fun a b => by
    rcases lt_trichotomy a.bucket b.bucket with hlt | heq | hgt
    · exact Or.inl (Or.inl hlt)
    · exact (String.le_total a.user b.user).imp (fun h => Or.inr ⟨heq, h⟩)
        fun h => Or.inr ⟨heq.symm, h⟩
    · exact Or.inr (Or.inl hgt)⟩
  have : IsTrans Cell Cell.Le := ⟨fun a b c hab hbc => by
    rcases hab with hab | ⟨hab, hu⟩ <;> rcases hbc with hbc | ⟨hbc, hu'⟩
    · exact Or.inl (hab.trans hbc)
    · exact Or.inl (hab.trans_eq hbc)
    · exact Or.inl (hab.trans_lt hbc)
    · exact Or.inr ⟨hab.trans hbc, String.le_trans hu hu'⟩⟩
  have hsorted : (cells flagKey).Pairwise Cell.Le := List.pairwise_insertionSort _ _
  refine hsorted.imp fun hab => ?_
  rcases hab with hlt | ⟨heq, -⟩
  · exact hlt.le
  · exact heq.le

/-- The three rules by which a square is coloured. -/
theorem stateOf_eq (hcell : cell.bucket = rolloutBucket flag.key cell.user) :
    stateOf flag cell =
      if flag.enabled = true ∧ cell.user ∈ flag.targetedUsers then .onTargeted
      else if flag.enabled = true ∧ cell.bucket < flag.rolloutPercentage then .onRollout
      else .off := by
  obtain ⟨hlow, hhigh⟩ := rolloutBucket_bounds flag.key cell.user
  rw [← hcell] at hlow hhigh
  have hany : ((flag.targetedUsers.map Json.str).any fun u => u.isStr cell.user) =
      decide (cell.user ∈ flag.targetedUsers) := by
    rw [List.any_map, Bool.eq_iff_iff]
    simp [Json.isStr]
  unfold stateOf EvaluableFlag.evaluate evaluateFlag
  rw [hany, ← hcell]
  cases flag.enabled with
  | false => simp
  | true =>
      by_cases hmem : cell.user ∈ flag.targetedUsers
      · simp [hmem]
      by_cases hzero : flag.rolloutPercentage ≤ 0
      · have hnot : ¬ cell.bucket < flag.rolloutPercentage := by omega
        simp [hmem, hzero, hnot]
      by_cases hfull : flag.rolloutPercentage ≥ 100
      · have hbucket : cell.bucket < flag.rolloutPercentage := by omega
        simp [hmem, hzero, hfull, hbucket]
      · by_cases hbucket : cell.bucket < flag.rolloutPercentage
        · simp [hmem, hzero, hfull, hbucket]
        · simp [hmem, hzero, hfull, hbucket]

/-- What holds of a list from its front on, holds of a first part of it. -/
theorem filter_eq_takeWhile {α : Type*} {P : α → Bool} {l : List α}
    (h : l.Pairwise fun x y => P y = true → P x = true) : l.filter P = l.takeWhile P := by
  induction l with
  | nil => rfl
  | cons a l ih =>
      obtain ⟨ha, hl⟩ := List.pairwise_cons.mp h
      cases hPa : P a with
      | true => rw [List.filter_cons_of_pos hPa, List.takeWhile_cons_of_pos hPa, ih hl]
      | false =>
          rw [List.takeWhile_cons_of_neg (by simp [hPa]), List.filter_eq_nil_iff]
          intro b hb hPb
          rcases List.mem_cons.mp hb with rfl | hb
          · simp [hPa] at hPb
          · simp [ha b hb hPb] at hPa

/-- The grid fills like a meter: up to the percentage, all but the targeted users are on by rollout,
and nobody else is. -/
theorem filter_onRollout (hon : flag.enabled = true) :
    ((cells flag.key).filter fun cell => stateOf flag cell = .onRollout) =
      ((cells flag.key).takeWhile fun cell => cell.bucket < flag.rolloutPercentage).filter
        fun cell => cell.user ∉ flag.targetedUsers := by
  have hsorted : (cells flag.key).Pairwise fun a b =>
      decide (b.bucket < flag.rolloutPercentage) = true →
        decide (a.bucket < flag.rolloutPercentage) = true := by
    refine (pairwise_cells flag.key).imp fun hab hb => ?_
    rw [decide_eq_true_eq] at hb ⊢
    exact hab.trans_lt hb
  rw [← filter_eq_takeWhile hsorted, List.filter_filter]
  refine List.filter_congr fun cell hcell => ?_
  rw [stateOf_eq (bucket_of_mem_cells hcell), hon]
  by_cases hmem : cell.user ∈ flag.targetedUsers
  · simp [hmem]
  · by_cases hbucket : cell.bucket < flag.rolloutPercentage
    · simp [hmem, hbucket]
    · simp [hmem, hbucket]

/-- A higher percentage turns nobody off, and nobody on whose bucket is not between the two. -/
theorem stateOf_mono (hpq : p ≤ q) (hcell : cell ∈ cells flag.key) :
    stateOf { flag with rolloutPercentage := q } cell =
      if stateOf { flag with rolloutPercentage := p } cell = .off ∧ flag.enabled = true ∧
        p ≤ cell.bucket ∧ cell.bucket < q then .onRollout
      else stateOf { flag with rolloutPercentage := p } cell := by
  have hbucket := bucket_of_mem_cells hcell
  have hp := @stateOf_eq { flag with rolloutPercentage := p } cell hbucket
  have hq := @stateOf_eq { flag with rolloutPercentage := q } cell hbucket
  rw [hp, hq]
  dsimp only
  by_cases htarget : flag.enabled = true ∧ cell.user ∈ flag.targetedUsers
  · simp [htarget]
  rw [if_neg htarget, if_neg htarget]
  by_cases hon : flag.enabled = true
  · by_cases hlow : cell.bucket < p
    · have hhigh : cell.bucket < q := by omega
      simp [hon, hlow, hhigh]
    · by_cases hhigh : cell.bucket < q
      · simp [hon, hlow, hhigh, not_lt.mp hlow]
      · simp [hon, hlow, hhigh]
  · simp [hon]

theorem onCount_mono (hpq : p ≤ q) :
    onCount { flag with rolloutPercentage := p } ≤
      onCount { flag with rolloutPercentage := q } := by
  refine List.countP_mono_left fun cell hcell hon => ?_
  have hon : stateOf { flag with rolloutPercentage := p } cell ≠ .off := of_decide_eq_true hon
  rw [stateOf_mono hpq hcell, if_neg fun hoff => hon hoff.1]
  exact decide_eq_true hon

theorem ascii_toString (n : Nat) : Ascii (toString n) := by
  intro c hc
  have hmem : c ∈ Nat.toDigits 10 n := by
    rwa [Nat.toString_eq_repr, Nat.toList_repr] at hc
  have hdigit := Nat.isDigit_of_mem_toDigits (by decide) (by decide) hmem
  simp only [Char.isDigit, Bool.and_eq_true, decide_eq_true_eq, UInt32.le_iff_toNat_le,
    ge_iff_le] at hdigit
  exact lt_of_le_of_lt hdigit.2 (by decide)

theorem ascii_of_mem_sample {user : String} (h : user ∈ sample) : Ascii user := by
  obtain ⟨i, -, rfl⟩ := List.mem_map.mp h
  have huser : Ascii "user-" := ascii_of_keyRegex (by decide)
  exact huser.append (ascii_toString (i + 1))

end Grid

/-! ### What the SDKs say -/

/-- The flag as the page holds it. -/
def EvaluableFlag.ofClient (f : ClientFlag) : EvaluableFlag :=
  ⟨f.key, f.enabled, f.rolloutPercentage, f.targetedUsers⟩

theorem isInRollout_eq_bucket (flagKey userId : String) (percentage : Int) :
    isInRollout flagKey userId percentage = decide (rolloutBucket flagKey userId < percentage) := by
  obtain ⟨hlow, hhigh⟩ := rolloutBucket_bounds flagKey userId
  unfold isInRollout
  split
  · rename_i hzero
    exact (decide_eq_false (by omega)).symm
  split
  · rename_i hfull
    exact (decide_eq_true (by omega)).symm
  · rfl

/-- At the flag's own percentage a square is the verdict of both SDKs. -/
theorem stateOf_verdict {f : ClientFlag} {c : Client} {t : FeatureFlagClient} {cell : Cell}
    (h : HoldBoth c t f.key f) (hkey : Ascii f.key) (hcell : cell ∈ cells f.key) :
    c.isEnabled f.key cell.user = decide (stateOf (.ofClient f) cell ≠ .off) ∧
      t.isEnabled f.key cell.user = some (decide (stateOf (.ofClient f) cell ≠ .off)) := by
  have hbucket : cell.bucket = rolloutBucket f.key cell.user := bucket_of_mem_cells hcell
  have huser : cell.user ∈ sample := by
    obtain ⟨user, huser, rfl⟩ := List.mem_map.mp ((cells_perm f.key).mem_iff.mp hcell)
    exact huser
  have hrollout : isInRollout f.key cell.user f.rolloutPercentage =
      decide (cell.bucket < f.rolloutPercentage) := by
    rw [isInRollout_eq_bucket, hbucket]
  have hsame : inRollout f.key cell.user f.rolloutPercentage =
      isInRollout f.key cell.user f.rolloutPercentage := by
    rw [isInRollout_eq_of_ascii hkey (ascii_of_mem_sample huser), isUserInRollout_eq_inRollout]
  have hstate : decide (stateOf (.ofClient f) cell ≠ .off) = (f.enabled &&
      (decide (cell.user ∈ f.targetedUsers) || decide (cell.bucket < f.rolloutPercentage))) := by
    rw [@stateOf_eq (.ofClient f) cell hbucket]
    unfold EvaluableFlag.ofClient
    cases f.enabled with
    | false => simp
    | true =>
        by_cases hmem : cell.user ∈ f.targetedUsers
        · simp [hmem]
        · by_cases hlow : cell.bucket < f.rolloutPercentage
          · simp [hmem, hlow]
          · simp [hmem, hlow]
  rw [h.go_isEnabled, h.typescript_isEnabled, hsame, hrollout, hstate]
  exact ⟨rfl, rfl⟩

/-! ### Runs of the component -/

/-- The component after these renders and drags. -/
def Visualizer.after (flag : EvaluableFlag) (as : List VisualizerAction) : Visualizer :=
  as.foldl Visualizer.step (.mount flag)

/-- The slider was moved to where it is, and the flag's percentage has not changed since. -/
def ExploredSince (as : List VisualizerAction) (v : Visualizer) : Prop :=
  ∃ before after, as = before ++ .setPct v.pct :: after ∧
    ∀ a ∈ after, ∃ flag, a = .render flag ∧ flag.rolloutPercentage = v.flag.rolloutPercentage

/-- **The explored percentage**, by induction on the run: it is the flag's, or the last drag's. -/
theorem Visualizer.after_pct (flag : EvaluableFlag) (as : List VisualizerAction) :
    (after flag as).prevFlagPct = (after flag as).flag.rolloutPercentage ∧
      ((after flag as).pct = (after flag as).flag.rolloutPercentage ∨
        ExploredSince as (after flag as)) := by
  induction as using List.reverseRecOn with
  | nil => exact ⟨rfl, Or.inl rfl⟩
  | append_singleton as a ih =>
      have hafter : after flag (as ++ [a]) = (after flag as).step a := by
        rw [after, List.foldl_append]
        rfl
      rw [hafter]
      generalize after flag as = v at ih
      obtain ⟨hprev, hpct⟩ := ih
      cases a with
      | setPct pct => exact ⟨hprev, Or.inr ⟨as, [], rfl, by simp⟩⟩
      | render flag' =>
          rw [step]
          split
          · exact ⟨rfl, Or.inl rfl⟩
          · rename_i hsame
            have heq : flag'.rolloutPercentage = v.flag.rolloutPercentage :=
              (not_not.mp hsame).trans hprev
            refine ⟨(not_not.mp hsame).symm, ?_⟩
            rcases hpct with hpct | ⟨before, rest, rfl, hrest⟩
            · exact Or.inl (hpct.trans heq.symm)
            · refine Or.inr ⟨before, rest ++ [.render flag'], by simp, fun a ha => ?_⟩
              rcases List.mem_append.mp ha with ha | ha
              · obtain ⟨flag'', rfl, hpct⟩ := hrest a ha
                exact ⟨flag'', rfl, hpct.trans heq.symm⟩
              · exact ⟨flag', List.mem_singleton.mp ha, rfl⟩

/-- **The grid keeps its promise**, after every run of renders and drags. Its squares are the
sample users in the order of their buckets; those on by rollout are a first part of them, up to the
explored percentage and without the targeted users; a higher percentage turns on the squares
between the two and changes no other; the page says `dirty` only if the slider was moved since the
flag's percentage last changed; and otherwise a square is on exactly when both SDKs enable the
flag for its user. -/
theorem rollout_grid (flag : EvaluableFlag) (as : List VisualizerAction) :
    let v := Visualizer.after flag as
    (((cells v.flag.key).map Cell.user).Perm sample ∧
        (cells v.flag.key).Pairwise fun a b => a.bucket ≤ b.bucket) ∧
      (v.flag.enabled = true →
        ((cells v.flag.key).filter fun cell => stateOf v.explored cell = .onRollout) =
          ((cells v.flag.key).takeWhile fun cell => cell.bucket < v.pct).filter
            fun cell => cell.user ∉ v.flag.targetedUsers) ∧
      (∀ pct, v.pct ≤ pct →
        (∀ cell ∈ cells v.flag.key, stateOf (v.step (.setPct pct)).explored cell =
          if stateOf v.explored cell = .off ∧ v.flag.enabled = true ∧ v.pct ≤ cell.bucket ∧
            cell.bucket < pct then .onRollout
          else stateOf v.explored cell) ∧
        onCount v.explored ≤ onCount (v.step (.setPct pct)).explored) ∧
      (v.dirty = true → ExploredSince as v) ∧
      (v.dirty = false → ∀ c t f, v.flag = .ofClient f → HoldBoth c t f.key f → Ascii f.key →
        ∀ cell ∈ cells f.key,
          c.isEnabled f.key cell.user = decide (stateOf v.explored cell ≠ .off) ∧
            t.isEnabled f.key cell.user = some (decide (stateOf v.explored cell ≠ .off))) := by
  intro v
  refine ⟨⟨?_, pairwise_cells v.flag.key⟩, fun hon => @filter_onRollout v.explored hon,
    fun pct hle => ⟨fun cell hcell => stateOf_mono hle hcell, onCount_mono hle⟩, ?_, ?_⟩
  · have hperm := (cells_perm v.flag.key).map Cell.user
    rwa [List.map_map, Function.comp_def, List.map_id'] at hperm
  · intro hdirty
    exact (Visualizer.after_pct flag as).2.resolve_left (of_decide_eq_true hdirty)
  · intro hclean c t f hf hboth hkey cell hcell
    have hpct : v.pct = v.flag.rolloutPercentage := not_not.mp (of_decide_eq_false hclean)
    have hexplored : v.explored = .ofClient f := by
      rw [← hf, Visualizer.explored, hpct]
    rw [hexplored]
    exact stateOf_verdict hboth hkey hcell

/-- The page opens on another percentage, the slider is moved, and the flag comes in at its half:
the grid is back at what the SDKs say. -/
theorem rollout_grid_resynced :
    ∀ cell ∈ cells "checkout", (goHolding halfRow).isEnabled "checkout" cell.user =
      decide (stateOf (.ofClient (clientFlag halfRow)) cell ≠ .off) := by
  have hverdict := (rollout_grid ⟨"checkout", true, 10, []⟩
    [.setPct 80, .render (.ofClient (clientFlag halfRow))]).2.2.2.2 rfl
  intro cell hcell
  exact (hverdict _ _ (clientFlag halfRow) rfl (holdBoth_row halfRow)
    (ascii_of_keyRegex (by decide)) cell hcell).1

end FlagPlane
