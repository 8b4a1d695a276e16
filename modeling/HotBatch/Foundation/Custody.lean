import Mathlib.Data.Multiset.UnionInter

/-!
# Custody

Entries that move through a system, each of which stands for one key. Every key that has been
admitted has exactly one entry, wherever the entry is kept and whatever has become of it, and what
the outside has seen of a key agrees with its entry. A step exchanges some entries for others of the
same keys; only the views of these keys may change.
-/

namespace HotBatch

/-- The entries are those of the admitted keys, and each agrees with the view of its key. -/
structure Custody {η κ ν : Type} (key : η → κ) (Agrees : η → ν → Prop) (blank : ν)
    (admitted : List κ) (view : κ → ν) (entries : Multiset η) : Prop where
  nodup : admitted.Nodup
  conserved : entries.map key = admitted
  agrees : ∀ entry ∈ entries, Agrees entry (view (key entry))
  untouched : ∀ other ∉ admitted, view other = blank

namespace Custody

variable {η κ ν : Type} {key : η → κ} {Agrees : η → ν → Prop} {blank : ν} {admitted : List κ}
  {view view' : κ → ν} {entries olds news rest : Multiset η}

theorem nil (key : η → κ) (Agrees : η → ν → Prop) (blank : ν) :
    Custody key Agrees blank [] (fun _ ↦ blank) 0 where
  nodup := List.nodup_nil
  conserved := rfl
  agrees := fun _ hentry ↦ absurd hentry (Multiset.notMem_zero _)
  untouched := fun _ _ ↦ rfl

theorem nodup_keys (hcustody : Custody key Agrees blank admitted view entries) :
    (entries.map key).Nodup := by
  rw [hcustody.conserved]
  exact Multiset.coe_nodup.mpr hcustody.nodup

theorem mem_admitted (hcustody : Custody key Agrees blank admitted view entries) {entry : η}
    (hentry : entry ∈ entries) : key entry ∈ admitted := by
  rw [← Multiset.mem_coe, ← hcustody.conserved]
  exact Multiset.mem_map_of_mem key hentry

theorem exists_entry (hcustody : Custody key Agrees blank admitted view entries) {k : κ}
    (hadmitted : k ∈ admitted) : ∃ entry ∈ entries, key entry = k := by
  rw [← Multiset.mem_coe, ← hcustody.conserved] at hadmitted
  exact Multiset.mem_map.mp hadmitted

/-- Some entries are exchanged for others of the same keys. -/
theorem exchange (hcustody : Custody key Agrees blank admitted view (olds + rest))
    (hkeys : news.map key = olds.map key)
    (hothers : ∀ other ∉ olds.map key, view' other = view other)
    (hagrees : ∀ entry ∈ news, Agrees entry (view' (key entry))) :
    Custody key Agrees blank admitted view' (news + rest) where
  nodup := hcustody.nodup
  conserved := by rw [Multiset.map_add, hkeys, ← Multiset.map_add, hcustody.conserved]
  agrees := by
    intro entry hentry
    rcases Multiset.mem_add.mp hentry with hnew | hrest
    · exact hagrees entry hnew
    · have hnodup := hcustody.nodup_keys
      rw [Multiset.map_add, Multiset.nodup_add] at hnodup
      have hother : key entry ∉ olds.map key := fun hold ↦
        Multiset.disjoint_left.mp hnodup.2.2 hold (Multiset.mem_map_of_mem key hrest)
      rw [hothers _ hother]
      exact hcustody.agrees entry (Multiset.mem_add.mpr (Or.inr hrest))
  untouched := by
    intro other hother
    rw [hothers other]
    · exact hcustody.untouched other hother
    · intro hold
      obtain ⟨entry, hentry, rfl⟩ := Multiset.mem_map.mp hold
      exact hother (hcustody.mem_admitted (Multiset.mem_add.mpr (Or.inl hentry)))

/-- One entry is replaced. -/
theorem replace {old new : η} (hcustody : Custody key Agrees blank admitted view (old ::ₘ rest))
    (hkey : key new = key old) (hothers : ∀ other ≠ key old, view' other = view other)
    (hagrees : Agrees old (view (key old)) → Agrees new (view' (key old))) :
    Custody key Agrees blank admitted view' (new ::ₘ rest) := by
  rw [← Multiset.singleton_add] at hcustody ⊢
  apply hcustody.exchange
  · rw [Multiset.map_singleton, Multiset.map_singleton, hkey]
  · intro other hother
    rw [Multiset.map_singleton, Multiset.mem_singleton] at hother
    exact hothers other hother
  · intro entry hentry
    obtain rfl := Multiset.mem_singleton.mp hentry
    rw [hkey]
    exact hagrees (hcustody.agrees old (Multiset.mem_add.mpr
      (Or.inl (Multiset.mem_singleton_self old))))

/-- A new key is admitted. -/
theorem admission (hcustody : Custody key Agrees blank admitted view entries) {entry : η}
    (hnew : key entry ∉ admitted) (hagrees : Agrees entry blank) :
    Custody key Agrees blank (admitted ++ [key entry]) view (entry ::ₘ entries) where
  nodup := List.nodup_append.mpr ⟨hcustody.nodup, List.nodup_singleton _, fun left hleft right hright ↦ by
    rw [List.mem_singleton.mp hright]
    exact fun heq ↦ hnew (heq ▸ hleft)⟩
  conserved := by
    rw [Multiset.map_cons, hcustody.conserved, Multiset.cons_coe, Multiset.coe_eq_coe]
    exact (List.perm_append_singleton _ _).symm
  agrees := by
    intro other hother
    rcases Multiset.mem_cons.mp hother with rfl | hold
    · rw [hcustody.untouched _ hnew]
      exact hagrees
    · exact hcustody.agrees other hold
  untouched := fun other hother ↦
    hcustody.untouched other fun hold ↦ hother (List.mem_append_left _ hold)

end Custody

end HotBatch
