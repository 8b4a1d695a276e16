import Mathlib.Data.List.Sort

/-!
# The best entries of a row

The values of a row are ranked from the greatest down, and among equal values the lower index comes
first. The stable sort of the entries in the order of their indices computes this ranking, so its
prefixes hold the best entries of the row.
-/

namespace HotBatch.Ranking

/-! ## Entries and their indices -/

section Indexed

variable {κ : Type} {entry : ℕ × κ} {row : List κ} {start : ℕ}

/-- The entries of a row with their indices. -/
def indexed (start : ℕ) (row : List κ) : List (ℕ × κ) := (row.zipIdx start).map Prod.swap

theorem indexed_cons (start : ℕ) (value : κ) (row : List κ) :
    indexed start (value :: row) = (start, value) :: indexed (start + 1) row := rfl

theorem length_indexed (start : ℕ) (row : List κ) : (indexed start row).length = row.length := by
  rw [indexed, List.length_map, List.length_zipIdx]

theorem mem_indexed_zero : entry ∈ indexed 0 row ↔ row[entry.1]? = some entry.2 := by
  rw [indexed, List.mem_map]
  constructor
  · rintro ⟨pair, hpair, rfl⟩
    exact List.mem_zipIdx_iff_getElem?.mp hpair
  · intro hentry
    exact ⟨entry.swap, List.mem_zipIdx_iff_getElem?.mpr hentry, rfl⟩

theorem le_of_mem_indexed (hmem : entry ∈ indexed start row) :
    start ≤ entry.1 := by
  rw [indexed, List.mem_map] at hmem
  obtain ⟨pair, hpair, rfl⟩ := hmem
  exact List.le_snd_of_mem_zipIdx hpair

theorem pairwise_indexed (start : ℕ) (row : List κ) :
    (indexed start row).Pairwise fun left right ↦ left.1 < right.1 := by
  induction row generalizing start with
  | nil => exact List.Pairwise.nil
  | cons value rest ih =>
      rw [indexed_cons]
      exact List.Pairwise.cons (fun other hmem ↦ le_of_mem_indexed hmem) (ih _)

end Indexed

/-! ## The ranking -/

variable {κ : Type} [LinearOrder κ]

/-- Greater values come first, and of equal values the one with the lower index. -/
def Precedes (left right : ℕ × κ) : Prop :=
  right.2 < left.2 ∨ right.2 = left.2 ∧ left.1 < right.1

variable {first second third entry : ℕ × κ}

theorem Precedes.trans (hfirst : Precedes first second) (hsecond : Precedes second third) :
    Precedes first third := by
  cases hfirst with
  | inl hfirst =>
      cases hsecond with
      | inl hsecond => exact .inl (hsecond.trans hfirst)
      | inr hsecond => exact .inl (hsecond.1 ▸ hfirst)
  | inr hfirst =>
      cases hsecond with
      | inl hsecond => exact .inl (hfirst.1 ▸ hsecond)
      | inr hsecond => exact .inr ⟨hsecond.1.trans hfirst.1, hfirst.2.trans hsecond.2⟩

theorem Precedes.le (hprecedes : Precedes first second) : second.2 ≤ first.2 := by
  cases hprecedes with
  | inl hlt => exact hlt.le
  | inr heq => exact heq.1.le

theorem Precedes.asymm (hprecedes : Precedes first second) : ¬ Precedes second first := by
  intro hback
  cases hprecedes.trans hback with
  | inl hlt => exact lt_irrefl _ hlt
  | inr heq => exact Nat.lt_irrefl _ heq.2

theorem precedes_of_le (hvalue : second.2 ≤ first.2) (hindex : first.1 < second.1) :
    Precedes first second := by
  cases hvalue.lt_or_eq with
  | inl hlt => exact .inl hlt
  | inr heq => exact .inr ⟨heq, hindex⟩

section StableOrder

variable {before : ℕ × κ → ℕ × κ → Prop} [DecidableRel before]
  (hbefore : ∀ left right, before left right ↔ right.2 ≤ left.2)

include hbefore

/-- An entry with a lower index than all others is inserted where the ranking wants it. -/
theorem pairwise_precedes_orderedInsert {sorted : List (ℕ × κ)} (hsorted : sorted.Pairwise Precedes)
    (hindex : ∀ other ∈ sorted, entry.1 < other.1) :
    (sorted.orderedInsert before entry).Pairwise Precedes := by
  induction sorted with
  | nil => exact List.pairwise_singleton _ _
  | cons head rest ih =>
      obtain ⟨hhead, hrest⟩ := List.pairwise_cons.mp hsorted
      rw [List.orderedInsert_cons]
      by_cases hfirst : before entry head
      · have hprecedes := precedes_of_le ((hbefore _ _).mp hfirst) (hindex _ List.mem_cons_self)
        rw [if_pos hfirst]
        refine List.Pairwise.cons (fun other hmem ↦ ?_) hsorted
        cases List.mem_cons.mp hmem with
        | inl heq => exact heq ▸ hprecedes
        | inr hmem => exact hprecedes.trans (hhead other hmem)
      · rw [if_neg hfirst]
        refine List.Pairwise.cons (fun other hmem ↦ ?_)
          (ih hrest fun other hmem ↦ hindex other (List.mem_cons_of_mem _ hmem))
        rw [List.mem_orderedInsert] at hmem
        cases hmem with
        | inl heq => exact .inl (heq ▸ not_le.mp (mt (hbefore _ _).mpr hfirst))
        | inr hmem => exact hhead other hmem

/-- The sort of entries that stand in the order of their indices. -/
theorem pairwise_precedes_insertionSort {entries : List (ℕ × κ)}
    (hindices : entries.Pairwise fun left right ↦ left.1 < right.1) :
    (entries.insertionSort before).Pairwise Precedes := by
  induction entries with
  | nil => exact List.Pairwise.nil
  | cons entry rest ih =>
      obtain ⟨hfirst, hrest⟩ := List.pairwise_cons.mp hindices
      rw [List.insertionSort_cons]
      refine pairwise_precedes_orderedInsert hbefore (ih hrest) fun other hmem ↦ ?_
      exact hfirst other ((List.mem_insertionSort before).mp hmem)

end StableOrder

/-- The best entries of a row in the order of the ranking. -/
structure Best (bound : ℕ) (row : List κ) (top : List (ℕ × κ)) : Prop where
  entries : ∀ entry ∈ top, row[entry.1]? = some entry.2
  ordered : top.Pairwise Precedes
  length_eq : top.length = min bound row.length
  best : ∀ entry ∈ top, ∀ other, row[other.1]? = some other.2 → other ∉ top → Precedes entry other

theorem Best.nodup {bound : ℕ} {row : List κ} {top : List (ℕ × κ)} (hbest : Best bound row top) :
    (top.map Prod.fst).Nodup := by
  rw [List.Nodup, List.pairwise_map]
  refine hbest.ordered.imp_of_mem fun {first second} hfirst hsecond hprecedes heq ↦ ?_
  have hvalues := hbest.entries first hfirst
  rw [heq, hbest.entries second hsecond] at hvalues
  have hsame : first = second := Prod.ext heq (Option.some.inj hvalues).symm
  exact hprecedes.asymm (hsame ▸ hprecedes)

/-- **Prefixes of the sorted row hold its best entries.** -/
theorem best_take_insertionSort {before : ℕ × κ → ℕ × κ → Prop} [DecidableRel before]
    (hbefore : ∀ left right, before left right ↔ right.2 ≤ left.2) (row : List κ) (count : ℕ) :
    Best count row (((indexed 0 row).insertionSort before).take count) := by
  have hordered := pairwise_precedes_insertionSort hbefore (pairwise_indexed 0 row)
  refine ⟨fun entry hmem ↦ ?_, hordered.sublist (List.take_sublist _ _), ?_, ?_⟩
  · exact mem_indexed_zero.mp ((List.mem_insertionSort before).mp (List.mem_of_mem_take hmem))
  · rw [List.length_take, List.length_insertionSort, length_indexed]
  · intro entry hmem other hother hnot
    have hall := (List.mem_insertionSort before).mpr (mem_indexed_zero.mpr hother)
    rw [← List.take_append_drop count (List.insertionSort before _)] at hall hordered
    exact (List.pairwise_append.mp hordered).2.2 entry hmem other
      ((List.mem_append.mp hall).resolve_left hnot)

end HotBatch.Ranking
