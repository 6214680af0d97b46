import FlagPlane.KeyedLog

/-!
# FlagPlane.LogReader

**Readers of a versioned log.** A reader holds a map and the version it is at, and moves
by applying entries. It is in step with a log when its map is the replay of the log
up to its version.

Two ways to move keep it in step: the very next entry (`InStep.apply`), and a page
(`InStep.read`), which skips what the reader is past. A page may be arbitrarily old:
it only has to hold, from some version the reader has reached, *every* entry up to
its last one.
-/

namespace FlagPlane

variable {β κ ν : Type*}

/-- A map, and the version it is at. -/
structure Reader (β κ ν : Type*) where
  state : κ → Option ν
  version : β

section Move

variable [DecidableEq κ]

/-- Apply an entry and move to its version. -/
def Reader.apply (r : Reader β κ ν) (e : Entry β κ ν) : Reader β κ ν :=
  ⟨e.apply r.state, e.version⟩

variable [LinearOrder β]

/-- Apply an entry unless the reader is past it. -/
def Reader.next (r : Reader β κ ν) (e : Entry β κ ν) : Reader β κ ν :=
  if e.version ≤ r.version then r else r.apply e

/-- Go through a page. -/
def Reader.read (r : Reader β κ ν) (page : List (Entry β κ ν)) : Reader β κ ν :=
  page.foldl Reader.next r

end Move

variable [LinearOrder β] [DecidableEq κ] {m₀ : κ → Option ν} {l l' page done : List (Entry β κ ν)}
  {r : Reader β κ ν} {e : Entry β κ ν} {v : β}

/-- The reader's map is the replay, over `m₀`, of the log up to the reader's version. -/
def InStep (m₀ : κ → Option ν) (l : List (Entry β κ ν)) (r : Reader β κ ν) : Prop :=
  r.state = replay m₀ (upTo r.version l)

theorem Reader.le_next (r : Reader β κ ν) (e : Entry β κ ν) : r.version ≤ (r.next e).version := by
  rw [Reader.next]
  split
  · exact le_refl _
  · rename_i hlt
    exact (not_le.mp hlt).le

theorem Reader.le_read (r : Reader β κ ν) (page : List (Entry β κ ν)) :
    r.version ≤ (r.read page).version := by
  induction page generalizing r with
  | nil => exact le_refl _
  | cons e page ih => exact (r.le_next e).trans (ih _)

/-- A page takes the reader no further than its entries go. -/
theorem Reader.read_version_le (hr : r.version ≤ v) (hpage : ∀ e ∈ page, e.version ≤ v) :
    (r.read page).version ≤ v := by
  induction page generalizing r with
  | nil => exact hr
  | cons e page ih =>
      rw [List.forall_mem_cons] at hpage
      refine ih (r := r.next e) ?_ hpage.2
      rw [Reader.next]
      split
      · exact hr
      · exact hpage.1

/-- Entries above the reader do not matter to it. -/
theorem InStep.append (h : InStep m₀ l r) (hnew : ∀ e ∈ l', r.version < e.version) :
    InStep m₀ (l ++ l') r := by
  have hnil : l'.filter (fun e => e.version ≤ r.version) = [] := by
    rw [List.filter_eq_nil_iff]
    simpa using hnew
  have hup : upTo r.version (l ++ l') = upTo r.version l := by
    rw [upTo, List.filter_append, hnil, List.append_nil]
    rfl
  rw [InStep, hup]
  exact h

/-- The next entry of the log leaves the reader in step. -/
theorem InStep.apply (h : InStep m₀ l r) (hl : Ascending l) (he : e ∈ l)
    (hv : r.version < e.version)
    (hnext : ∀ x ∈ l, r.version < x.version → e.version ≤ x.version) : InStep m₀ l (r.apply e) := by
  rw [InStep, Reader.apply, hl.replay_next he hv hnext, h]

/-- The induction behind `InStep.read`: `done` is the part of the page the reader is past. -/
theorem InStep.read_aux (hl : Ascending l) (h : InStep m₀ l r) (hv : v ≤ r.version)
    (hpage : done ++ page <+: above v l) (hdone : ∀ e ∈ done, e.version ≤ r.version) :
    InStep m₀ l (r.read page) := by
  induction page generalizing r done with
  | nil => exact h
  | cons e page ih =>
      have hpage' : (done ++ [e]) ++ page <+: above v l := by
        rwa [List.append_assoc, List.singleton_append]
      have hmem : e ∈ above v l := hpage.subset (by simp)
      have hle := r.le_next e
      rw [Reader.read, List.foldl_cons]
      refine ih (r := r.next e) ?_ (hv.trans hle) hpage' ?_
      · rw [Reader.next]
        split
        · exact h
        · rename_i hlt
          refine h.apply hl (List.mem_of_mem_filter hmem) (not_le.mp hlt) fun x hx hlt' => ?_
          by_contra hxe
          -- `x` is above `v` and comes before `e` in the log, so the page had it before `e`
          have hxpage : x ∈ above v l := by simpa [above, hx] using lt_of_le_of_lt hv hlt'
          have hasc : Ascending (above v l) := hl.sublist List.filter_sublist
          obtain ⟨rest, hrest⟩ := hpage
          rw [← hrest, List.append_assoc] at hxpage hasc
          rw [Ascending, List.pairwise_append, List.cons_append, List.pairwise_cons] at hasc
          rcases List.mem_append.mp hxpage with hx | hx
          · exact absurd (hdone x hx) (not_le.mpr hlt')
          · rcases List.mem_cons.mp hx with rfl | hx
            · exact hxe (le_refl _)
            · exact hxe (hasc.2.1.1 x hx).le
      · intro x hx
        rcases List.mem_append.mp hx with hx | hx
        · exact (hdone x hx).trans hle
        · rw [List.mem_singleton.mp hx, Reader.next]
          split
          · assumption
          · exact le_refl _

/-- **A page, however old, leaves the reader in step.** -/
theorem InStep.read (hl : Ascending l) (h : InStep m₀ l r) (hv : v ≤ r.version)
    (hpage : page <+: above v l) : InStep m₀ l (r.read page) := by
  have hpage' : [] ++ page <+: above v l := hpage
  exact InStep.read_aux hl h hv hpage' (by simp)

end FlagPlane
