import Mathlib.Data.List.Sort
import Mathlib.Data.List.Nodup

/-!
# FlagPlane.KeyedLog

**Replaying a versioned log.** An entry carries a version, a key and the value the
key takes (`none` for a removal). Replaying a log over a map applies its entries
in ascending version order, whatever order the log lists them in.

The two questions a user of such a log has are answered here once, for any type
of keys and values and any linear order of versions:

* what one more entry does (`replay_append_top`, `replay_append_shadowed`): it
  takes effect exactly when no entry of the same key is above it;
* what a reader that already holds the log up to `v` has to apply next
  (`Ascending.replay_next`): the entry that follows `v`, and nothing else.
-/

namespace FlagPlane

/-- One entry of a keyed log: at `version`, `key` takes `value`. -/
structure Entry (β κ ν : Type*) where
  version : β
  key : κ
  value : Option ν

variable {β κ ν : Type*}

section Apply

variable [DecidableEq κ]

/-- Apply one entry to a map. -/
def Entry.apply (m : κ → Option ν) (e : Entry β κ ν) : κ → Option ν :=
  Function.update m e.key e.value

/-- Apply entries in the order they are listed. -/
def applyAll (m : κ → Option ν) (l : List (Entry β κ ν)) : κ → Option ν :=
  l.foldl Entry.apply m

variable {m m' : κ → Option ν} {l l' : List (Entry β κ ν)} {e : Entry β κ ν} {k : κ}

@[simp] theorem Entry.apply_self : e.apply m e.key = e.value := by
  simp [Entry.apply]

theorem Entry.apply_of_ne (h : e.key ≠ k) : e.apply m k = m k := by
  simp [Entry.apply, Function.update_of_ne (Ne.symm h)]

@[simp] theorem applyAll_nil : applyAll m ([] : List (Entry β κ ν)) = m := rfl

@[simp] theorem applyAll_cons : applyAll m (e :: l) = applyAll (e.apply m) l := rfl

@[simp] theorem applyAll_append : applyAll m (l ++ l') = applyAll (applyAll m l) l' := by
  simp [applyAll, List.foldl_append]

/-- A key no entry mentions keeps its value. -/
theorem applyAll_of_forall_ne (h : ∀ e ∈ l, e.key ≠ k) : applyAll m l k = m k := by
  induction l generalizing m with
  | nil => rfl
  | cons e l ih =>
      rw [List.forall_mem_cons] at h
      rw [applyAll_cons, ih h.2, Entry.apply_of_ne h.1]

/-- Maps that agree at a key still agree there after the same entries. -/
theorem applyAll_congr (h : m k = m' k) : applyAll m l k = applyAll m' l k := by
  induction l generalizing m m' with
  | nil => exact h
  | cons e l ih =>
      rw [applyAll_cons, applyAll_cons]
      refine ih ?_
      by_cases hk : e.key = k
      · subst hk
        rw [Entry.apply_self, Entry.apply_self]
      · rw [Entry.apply_of_ne hk, Entry.apply_of_ne hk, h]

/-- A key some entry mentions does not depend on the map one starts from. -/
theorem applyAll_congr_of_mem (h : ∃ e ∈ l, e.key = k) :
    applyAll m l k = applyAll m' l k := by
  induction l generalizing m m' with
  | nil => simp at h
  | cons e l ih =>
      rw [applyAll_cons, applyAll_cons]
      by_cases hl : ∃ e ∈ l, e.key = k
      · exact ih hl
      · have hne : ∀ e ∈ l, e.key ≠ k := fun e he hk => hl ⟨e, he, hk⟩
        have he : e.key = k := by
          obtain ⟨e', he', hk⟩ := h
          rcases List.mem_cons.mp he' with rfl | he'
          · exact hk
          · exact absurd hk (hne e' he')
        rw [applyAll_of_forall_ne hne, applyAll_of_forall_ne hne]
        subst he
        simp

end Apply

/-! ### The ascending order -/

/-- No two entries share a version. -/
def DistinctVersions (l : List (Entry β κ ν)) : Prop :=
  (l.map Entry.version).Nodup

variable {l l' : List (Entry β κ ν)} {e : Entry β κ ν}

theorem DistinctVersions.filter (h : DistinctVersions l) (p : Entry β κ ν → Bool) :
    DistinctVersions (l.filter p) :=
  List.Nodup.sublist (List.filter_sublist.map _) h

theorem distinctVersions_append_singleton :
    DistinctVersions (l ++ [e]) ↔ DistinctVersions l ∧ ∀ x ∈ l, x.version ≠ e.version := by
  rw [DistinctVersions, List.map_append, List.nodup_append]
  simp [DistinctVersions]

section Order

variable [LinearOrder β]

/-- The entries in ascending version order. -/
def ascending (l : List (Entry β κ ν)) : List (Entry β κ ν) :=
  l.insertionSort (fun a b => a.version ≤ b.version)

/-- The entries of version at most `v`. -/
def upTo (v : β) (l : List (Entry β κ ν)) : List (Entry β κ ν) :=
  l.filter (fun e => e.version ≤ v)

/-- The entries above `v`. -/
def above (v : β) (l : List (Entry β κ ν)) : List (Entry β κ ν) :=
  l.filter (fun e => v < e.version)

/-- The entries are listed in strictly ascending version order. -/
def Ascending (l : List (Entry β κ ν)) : Prop :=
  l.Pairwise (fun a b => a.version < b.version)

theorem ascending_perm (l : List (Entry β κ ν)) : (ascending l).Perm l :=
  List.perm_insertionSort _ l

@[simp] theorem mem_ascending : e ∈ ascending l ↔ e ∈ l :=
  (ascending_perm l).mem_iff

theorem pairwise_ascending (l : List (Entry β κ ν)) :
    (ascending l).Pairwise (fun a b => a.version ≤ b.version) := by
  have : Std.Total (fun a b : Entry β κ ν => a.version ≤ b.version) :=
    ⟨fun a b => le_total a.version b.version⟩
  have : IsTrans (Entry β κ ν) (fun a b => a.version ≤ b.version) :=
    ⟨fun _ _ _ h₁ h₂ => le_trans h₁ h₂⟩
  exact List.pairwise_insertionSort _ l

/-- With distinct versions there is only one ascending arrangement. -/
theorem ascending_eq_of_perm (hd : DistinctVersions l) (hp : l'.Perm l)
    (hs : l'.Pairwise (fun a b => a.version ≤ b.version)) : ascending l = l' := by
  have hinj := List.inj_on_of_nodup_map hd
  refine List.Perm.eq_of_pairwise ?_ (pairwise_ascending l) hs ((ascending_perm l).trans hp.symm)
  intro a b ha hb hab hba
  exact hinj (mem_ascending.mp ha) (hp.mem_iff.mp hb) (le_antisymm hab hba)

theorem Ascending.distinct (h : Ascending l) : DistinctVersions l :=
  (List.pairwise_map.mpr h).imp fun hab => ne_of_lt hab

theorem Ascending.ascending_eq (h : Ascending l) : ascending l = l :=
  ascending_eq_of_perm h.distinct (List.Perm.refl l) (h.imp fun hab => hab.le)

/-- Moving the bound up to the next entry of an ascending log adds that entry alone. -/
theorem Ascending.upTo_next (h : Ascending l) (he : e ∈ l) {v : β} (hv : v < e.version)
    (hnext : ∀ x ∈ l, v < x.version → e.version ≤ x.version) :
    upTo e.version l = upTo v l ++ [e] := by
  obtain ⟨l₁, l₂, rfl⟩ := List.append_of_mem he
  rw [Ascending, List.pairwise_append, List.pairwise_cons] at h
  obtain ⟨-, ⟨hafter, -⟩, hbefore⟩ := h
  have hlt : ∀ x ∈ l₁, x.version < e.version := fun x hx => hbefore x hx e List.mem_cons_self
  have hlow : ∀ x ∈ l₁, x.version ≤ v := fun x hx => not_lt.mp fun hvx =>
    absurd (hnext x (List.mem_append_left _ hx) hvx) (not_le.mpr (hlt x hx))
  have hup : upTo e.version (l₁ ++ e :: l₂) = l₁ ++ [e] := by
    rw [upTo, List.filter_append, List.filter_cons_of_pos (by simp),
      List.filter_eq_self.mpr (by simpa using fun x hx => (hlt x hx).le),
      List.filter_eq_nil_iff.mpr (by simpa using hafter)]
  have hdown : upTo v (l₁ ++ e :: l₂) = l₁ := by
    rw [upTo, List.filter_append, List.filter_cons_of_neg (by simpa using hv),
      List.filter_eq_self.mpr (by simpa using hlow),
      List.filter_eq_nil_iff.mpr (by simpa using fun x hx => hv.trans (hafter x hx)),
      List.append_nil]
  rw [hup, hdown]

/-- The ascending log splits at any version into what is up to it and what is above. -/
theorem ascending_split (h : DistinctVersions l) (v : β) :
    ascending l = ascending (upTo v l) ++ ascending (above v l) := by
  refine ascending_eq_of_perm h ?_ ?_
  · have hperm : (upTo v l ++ above v l).Perm l := by
      have hneg : above v l = l.filter (fun e => !decide (e.version ≤ v)) := by
        simp [above, ← not_le]
      rw [hneg, upTo]
      exact List.filter_append_perm _ l
    exact ((ascending_perm _).append (ascending_perm _)).trans hperm
  · rw [List.pairwise_append]
    refine ⟨pairwise_ascending _, pairwise_ascending _, fun a ha b hb => ?_⟩
    rw [mem_ascending, upTo, List.mem_filter] at ha
    rw [mem_ascending, above, List.mem_filter] at hb
    exact (of_decide_eq_true ha.2).trans (of_decide_eq_true hb.2).le

/-- Where an appended entry lands in the ascending log. -/
theorem ascending_append_singleton (h : DistinctVersions (l ++ [e])) :
    ascending (l ++ [e]) =
      ascending (upTo e.version l) ++ e :: ascending (above e.version l) := by
  have hup : upTo e.version (l ++ [e]) = upTo e.version l ++ [e] := by simp [upTo]
  have hab : above e.version (l ++ [e]) = above e.version l := by simp [above]
  have hlow : ascending (upTo e.version l ++ [e]) = ascending (upTo e.version l) ++ [e] := by
    refine ascending_eq_of_perm (hup ▸ h.filter _) ((ascending_perm _).append_right _) ?_
    rw [List.pairwise_append]
    refine ⟨pairwise_ascending _, List.pairwise_singleton _ _, fun a ha b hb => ?_⟩
    rw [mem_ascending, upTo, List.mem_filter] at ha
    rw [List.mem_singleton] at hb
    exact hb ▸ of_decide_eq_true ha.2
  rw [ascending_split h e.version, hup, hab, hlow, List.append_assoc, List.singleton_append]

end Order

/-! ### Replay -/

/-- Replay a log over a map: apply its entries in ascending version order. -/
def replay [LinearOrder β] [DecidableEq κ] (m : κ → Option ν) (l : List (Entry β κ ν)) :
    κ → Option ν :=
  applyAll m (ascending l)

variable [LinearOrder β] [DecidableEq κ] {m : κ → Option ν}

theorem Ascending.replay_eq (h : Ascending l) : replay m l = applyAll m l := by
  rw [replay, h.ascending_eq]

/-- A reader at `v` that applies the next entry of an ascending log is at that entry. -/
theorem Ascending.replay_next (h : Ascending l) (he : e ∈ l) {v : β} (hv : v < e.version)
    (hnext : ∀ x ∈ l, v < x.version → e.version ≤ x.version) :
    replay m (upTo e.version l) = e.apply (replay m (upTo v l)) := by
  have hup : ∀ v, Ascending (upTo v l) := fun v => h.sublist List.filter_sublist
  rw [(hup _).replay_eq, (hup _).replay_eq, h.upTo_next he hv hnext, applyAll_append]
  rfl

/-- An appended entry above every entry of its key takes effect. -/
theorem replay_append_top (h : DistinctVersions (l ++ [e]))
    (htop : ∀ x ∈ l, x.key = e.key → x.version < e.version) :
    replay m (l ++ [e]) = e.apply (replay m l) := by
  have hd := (distinctVersions_append_singleton.mp h).1
  have hkey : ∀ x ∈ ascending (above e.version l), x.key ≠ e.key := by
    intro x hx hk
    rw [mem_ascending, above, List.mem_filter] at hx
    exact absurd (htop x hx.1 hk) (not_lt.mpr (of_decide_eq_true hx.2).le)
  funext k
  rw [replay, ascending_append_singleton h, applyAll_append, applyAll_cons]
  by_cases hk : e.key = k
  · subst hk
    rw [applyAll_of_forall_ne hkey, Entry.apply_self, Entry.apply_self]
  · -- an untouched key: the fold above `e` starts from maps that agree at `k`
    rw [Entry.apply_of_ne hk, replay, ascending_split hd e.version, applyAll_append]
    exact applyAll_congr (Entry.apply_of_ne hk)

/-- An appended entry below some entry of its key has no effect. -/
theorem replay_append_shadowed (h : DistinctVersions (l ++ [e]))
    (hsh : ∃ x ∈ l, x.key = e.key ∧ e.version < x.version) :
    replay m (l ++ [e]) = replay m l := by
  have hd := (distinctVersions_append_singleton.mp h).1
  have hmem : ∃ x ∈ ascending (above e.version l), x.key = e.key := by
    obtain ⟨x, hx, hk, hv⟩ := hsh
    exact ⟨x, by simp [above, hx, hv], hk⟩
  funext k
  rw [replay, replay, ascending_append_singleton h, ascending_split hd e.version,
    applyAll_append, applyAll_append, applyAll_cons]
  by_cases hk : e.key = k
  · exact applyAll_congr_of_mem (hk ▸ hmem)
  · exact applyAll_congr (Entry.apply_of_ne hk)

end FlagPlane
