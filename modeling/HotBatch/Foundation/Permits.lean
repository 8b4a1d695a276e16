import Mathlib.Data.List.Nodup

/-!
# Permits

Permits are acquired by holders and given back. Who has acquired one and who has given one back is
recorded; a permit is live in between. In a sound record nobody acquires twice and nobody gives back
what he does not hold, so that the live permits can be counted.
-/

namespace HotBatch

structure Permits (ι : Type) where
  acquired : List ι
  released : List ι

namespace Permits

variable {ι : Type}

def none : Permits ι := ⟨[], []⟩

def acquire (holder : ι) (permits : Permits ι) : Permits ι :=
  { permits with acquired := permits.acquired ++ [holder] }

def release (holder : ι) (permits : Permits ι) : Permits ι :=
  { permits with released := permits.released ++ [holder] }

/-- Every permit is acquired before it is released, and both happen once. -/
structure Sound (permits : Permits ι) : Prop where
  acquired_nodup : permits.acquired.Nodup
  released_nodup : permits.released.Nodup
  released_subset : permits.released ⊆ permits.acquired

theorem sound_none : (none : Permits ι).Sound where
  acquired_nodup := List.nodup_nil
  released_nodup := List.nodup_nil
  released_subset := List.nil_subset _

variable {permits : Permits ι} {holder other : ι}

theorem Sound.acquire (hsound : permits.Sound) (hnew : holder ∉ permits.acquired) :
    (permits.acquire holder).Sound where
  acquired_nodup := by
    apply List.Nodup.append hsound.acquired_nodup (List.nodup_singleton holder)
    rw [List.disjoint_singleton]
    exact hnew
  released_nodup := hsound.released_nodup
  released_subset := List.Subset.trans hsound.released_subset (List.subset_append_left _ _)

/-- The others keep what they have. -/
theorem mem_acquired_of_ne (permits : Permits ι) (hother : other ≠ holder) :
    other ∈ (permits.acquire holder).acquired ↔ other ∈ permits.acquired := by
  simp [acquire, hother]

theorem mem_released_of_ne (permits : Permits ι) (hother : other ≠ holder) :
    other ∈ (permits.release holder).released ↔ other ∈ permits.released := by
  simp [release, hother]

variable [DecidableEq ι]

/-- The holders of permits. -/
def live (permits : Permits ι) : List ι :=
  permits.acquired.filter fun holder ↦ holder ∉ permits.released

theorem mem_live : holder ∈ permits.live ↔ holder ∈ permits.acquired ∧ holder ∉ permits.released := by
  unfold live
  rw [List.mem_filter, decide_eq_true_eq]

/-- Permits are live or released. -/
theorem Sound.length_live (hsound : permits.Sound) :
    permits.live.length + permits.released.length = permits.acquired.length := by
  have hreleased : (permits.acquired.filter fun holder ↦ holder ∈ permits.released).Perm
      permits.released := by
    apply (List.perm_ext_iff_of_nodup (hsound.acquired_nodup.filter _) hsound.released_nodup).mpr
    intro holder
    rw [List.mem_filter, decide_eq_true_eq]
    exact ⟨And.right, fun hmem ↦ ⟨hsound.released_subset hmem, hmem⟩⟩
  have hsplit := List.length_eq_length_filter_add (l := permits.acquired)
    fun holder ↦ decide (holder ∉ permits.released)
  simp only [decide_not, Bool.not_not] at hsplit
  rw [hsplit, hreleased.length_eq]
  simp only [live, decide_not]

theorem Sound.release (hsound : permits.Sound) (hlive : holder ∈ permits.live) :
    (permits.release holder).Sound where
  acquired_nodup := hsound.acquired_nodup
  released_nodup := by
    apply List.Nodup.append hsound.released_nodup (List.nodup_singleton holder)
    rw [List.disjoint_singleton]
    exact (mem_live.mp hlive).2
  released_subset := by
    apply List.append_subset.mpr ⟨hsound.released_subset, ?_⟩
    rintro _ hmem
    rw [List.mem_singleton.mp hmem]
    exact (mem_live.mp hlive).1

/-- A new permit is one more. -/
theorem Sound.length_live_acquire (hsound : permits.Sound) (hnew : holder ∉ permits.acquired) :
    (permits.acquire holder).live.length = permits.live.length + 1 := by
  have hbefore := hsound.length_live
  have hafter := (hsound.acquire hnew).length_live
  have hacquired : (permits.acquire holder).acquired.length = permits.acquired.length + 1 :=
    List.length_append
  change (permits.acquire holder).live.length + permits.released.length = _ at hafter
  omega

/-- A permit that is given back is one less. -/
theorem Sound.length_live_release (hsound : permits.Sound) (hlive : holder ∈ permits.live) :
    (permits.release holder).live.length + 1 = permits.live.length := by
  have hbefore := hsound.length_live
  have hafter := (hsound.release hlive).length_live
  have hreleased : (permits.release holder).released.length = permits.released.length + 1 :=
    List.length_append
  change (permits.release holder).live.length + _ = permits.acquired.length at hafter
  omega

theorem Sound.mem_live_acquire (hsound : permits.Sound) (hnew : holder ∉ permits.acquired) :
    holder ∈ (permits.acquire holder).live :=
  mem_live.mpr ⟨List.mem_append_right _ (List.mem_singleton_self _),
    fun hreleased ↦ hnew (hsound.released_subset hreleased)⟩

theorem notMem_live_release : holder ∉ (permits.release holder).live :=
  fun hlive ↦ (mem_live.mp hlive).2 (List.mem_append_right _ (List.mem_singleton_self _))

end Permits

end HotBatch
