import FlagPlane.Client.Go
import FlagPlane.Client.TypeScript
import FlagPlane.Service.Requests

/-!
# FlagPlane.Client.Evaluate

**Evaluation in the two SDKs and the backend.** A flag with a partial rollout is evaluated alike
for every user whose id is ASCII, and for some other user it is not
(`evaluation_agrees_iff`).
-/

namespace FlagPlane

/-- `Client.IsEnabled`. -/
def Client.isEnabled (c : Client) (flagKey userID : String) : Bool :=
  match c.flags flagKey with
  | none => false
  | some f =>
    if f.enabled = false then false
    else if f.targetedUsers.any fun u => u = userID then true
    else inRollout flagKey userID f.rolloutPercentage

/-- The browser's record of a flag: the properties that `isEnabled` reads. -/
structure ClientFlag.IsRecord (f : ClientFlag) (record : Json) : Prop where
  enabled : record.prop "enabled" = some (.bool f.enabled)
  targetedUsers : record.prop "targeted_users" = some (.arr (f.targetedUsers.map .str))
  rolloutPercentage : record.prop "rollout_percentage" = some (.int f.rolloutPercentage)

/-- The payload of a row is a record of the Go client's flag. -/
theorem isRecord_payload (r : FlagRow) : (clientFlag r).IsRecord (flagPayload (scanFlag r)) :=
  ⟨rfl, rfl, rfl⟩

/-- Both SDKs hold the flag `f` under `flagKey`. -/
structure HoldBoth (c : Client) (t : FeatureFlagClient) (flagKey : String) (f : ClientFlag) :
    Prop where
  go : c.flags flagKey = some f
  typescript : ∃ record, t.flags flagKey = some record ∧ f.IsRecord record

/-- One decision, the same three times. -/
structure AgreeOn (c : Client) (t : FeatureFlagClient) (flagKey userID : String)
    (percentage : Int) :
    Prop where
  isEnabled : t.isEnabled flagKey userID = some (c.isEnabled flagKey userID)
  go : isUserInRollout flagKey userID percentage = inRollout flagKey userID percentage
  typescript : isUserInRollout flagKey userID percentage = isInRollout flagKey userID percentage

section Decisions

variable {c : Client} {t : FeatureFlagClient} {flagKey userID : String} {f : ClientFlag}

theorem HoldBoth.go_isEnabled (h : HoldBoth c t flagKey f) :
    c.isEnabled flagKey userID =
      (f.enabled && (decide (userID ∈ f.targetedUsers) ||
        inRollout flagKey userID f.rolloutPercentage)) := by
  rw [Client.isEnabled, h.go]
  dsimp only
  have hany : (f.targetedUsers.any fun u => u = userID) = decide (userID ∈ f.targetedUsers) := by
    rw [Bool.eq_iff_iff]
    simp
  rw [hany]
  cases f.enabled <;> by_cases hmem : userID ∈ f.targetedUsers <;> simp [hmem]

theorem HoldBoth.typescript_isEnabled (h : HoldBoth c t flagKey f) :
    t.isEnabled flagKey userID =
      some (f.enabled && (decide (userID ∈ f.targetedUsers) ||
        isInRollout flagKey userID f.rolloutPercentage)) := by
  obtain ⟨record, hflag, hrec⟩ := h.typescript
  have hany : ((f.targetedUsers.map Json.str).any fun u => u.isStr userID) =
      decide (userID ∈ f.targetedUsers) := by
    rw [List.any_map, Bool.eq_iff_iff]
    simp [Json.isStr]
  rw [FeatureFlagClient.isEnabled, hflag]
  dsimp only
  rw [hrec.enabled, hrec.targetedUsers, hrec.rolloutPercentage]
  cases f.enabled with
  | false => rfl
  | true =>
      dsimp only
      rw [hany]
      by_cases hmem : userID ∈ f.targetedUsers <;> simp [hmem]

/-- The decisions agree where the rollouts do, and where neither is asked. -/
theorem HoldBoth.isEnabled_iff (h : HoldBoth c t flagKey f) :
    t.isEnabled flagKey userID = some (c.isEnabled flagKey userID) ↔
      f.enabled = false ∨ userID ∈ f.targetedUsers ∨
        isInRollout flagKey userID f.rolloutPercentage =
          inRollout flagKey userID f.rolloutPercentage := by
  rw [h.go_isEnabled, h.typescript_isEnabled, Option.some.injEq]
  cases f.enabled <;> by_cases hmem : userID ∈ f.targetedUsers <;> simp [hmem]

/-- Where the rollouts agree everything does. -/
theorem HoldBoth.agreeOn (h : HoldBoth c t flagKey f)
    (hrollout : isInRollout flagKey userID f.rolloutPercentage =
      isUserInRollout flagKey userID f.rolloutPercentage) :
    AgreeOn c t flagKey userID f.rolloutPercentage :=
  ⟨h.isEnabled_iff.mpr (Or.inr (Or.inr hrollout)), rfl, hrollout.symm⟩

/-- **When a flag is evaluated alike everywhere.** Under a key that `keyRegex` accepts, for every
user exactly when the percentage is outside 1 to 99 (`IsEnabled` alone: also when the flag is
off), and for every user whose id is ASCII whatever the percentage. -/
theorem evaluation_agrees_iff (hkey : keyRegex flagKey = true) (h : HoldBoth c t flagKey f) :
    ((∀ userID, AgreeOn c t flagKey userID f.rolloutPercentage) ↔
        f.rolloutPercentage ≤ 0 ∨ 100 ≤ f.rolloutPercentage) ∧
      ((∀ userID, t.isEnabled flagKey userID = some (c.isEnabled flagKey userID)) ↔
        f.enabled = false ∨ f.rolloutPercentage ≤ 0 ∨ 100 ≤ f.rolloutPercentage) ∧
      ∀ userID, Ascii userID → AgreeOn c t flagKey userID f.rolloutPercentage := by
  have hascii := ascii_of_keyRegex hkey
  have hbounds : ∀ userID, f.rolloutPercentage ≤ 0 ∨ 100 ≤ f.rolloutPercentage →
      AgreeOn c t flagKey userID f.rolloutPercentage := fun userID hp =>
    h.agreeOn (isInRollout_eq_of_bounds hp)
  -- inside the bounds some user that the flag does not target tells the languages apart
  have hparting : ¬ (f.rolloutPercentage ≤ 0 ∨ 100 ≤ f.rolloutPercentage) →
      ∃ userID, userID ∉ f.targetedUsers ∧ isInRollout flagKey userID f.rolloutPercentage ≠
        isUserInRollout flagKey userID f.rolloutPercentage := by
    intro hp
    rw [not_or, not_le, not_le] at hp
    exact exists_user_disagrees hascii hp.1 hp.2 f.targetedUsers
  refine ⟨⟨fun hall => ?_, fun hp userID => hbounds userID hp⟩, ⟨fun hall => ?_, ?_⟩, ?_⟩
  · by_contra hp
    obtain ⟨userID, -, hne⟩ := hparting hp
    exact hne (hall userID).typescript.symm
  · by_contra hp
    rw [not_or] at hp
    obtain ⟨userID, hmem, hne⟩ := hparting hp.2
    rcases h.isEnabled_iff.mp (hall userID) with hoff | htargeted | heq
    · exact hp.1 hoff
    · exact hmem htargeted
    · exact hne heq
  · rintro (hoff | hp) userID
    · exact h.isEnabled_iff.mpr (Or.inl hoff)
    · exact (hbounds userID hp).isEnabled
  · exact fun userID huser => h.agreeOn (isInRollout_eq_of_ascii hascii huser)

end Decisions

/-- `checkout`, switched on for half of the users. -/
def halfRow : FlagRow := { checkoutRow with enabled := true, rolloutPercentage := 50, version := 1 }

/-- The Go client that holds this row alone. -/
def goHolding (r : FlagRow) : Client :=
  ⟨Function.update (fun _ => none) r.key (some (clientFlag r)), r.version⟩

/-- The browser's client that holds this row alone. -/
def browserHolding (r : FlagRow) : FeatureFlagClient :=
  ⟨Function.update (fun _ => none) r.key (some (flagPayload (scanFlag r))), r.version⟩

theorem holdBoth_row (r : FlagRow) :
    HoldBoth (goHolding r) (browserHolding r) r.key (clientFlag r) :=
  ⟨by simp [goHolding], _, by simp [browserHolding], isRecord_payload r⟩

theorem evaluation_agrees_iff_half :
    ((∀ userID, AgreeOn (goHolding halfRow) (browserHolding halfRow) "checkout" userID 50) ↔
        (50 : Int) ≤ 0 ∨ (100 : Int) ≤ 50) ∧
      ((∀ userID, (browserHolding halfRow).isEnabled "checkout" userID =
          some ((goHolding halfRow).isEnabled "checkout" userID)) ↔
        true = false ∨ (50 : Int) ≤ 0 ∨ (100 : Int) ≤ 50) ∧
      ∀ userID, Ascii userID →
        AgreeOn (goHolding halfRow) (browserHolding halfRow) "checkout" userID 50 :=
  evaluation_agrees_iff (by decide) (holdBoth_row halfRow)

/-- The Go SDK and the backend have this user in the rollout, the browser has not. -/
theorem accentedUser_evaluated_differently :
    keyRegex "checkout" = true ∧
      HoldBoth (goHolding halfRow) (browserHolding halfRow) "checkout" (clientFlag halfRow) ∧
      (goHolding halfRow).isEnabled "checkout" "user-é" = true ∧
      (browserHolding halfRow).isEnabled "checkout" "user-é" = some false ∧
      isUserInRollout "checkout" "user-é" 50 = true ∧ isInRollout "checkout" "user-é" 50 = false :=
  ⟨by decide, holdBoth_row halfRow, by decide, by decide +kernel, by decide, by decide +kernel⟩

end FlagPlane
