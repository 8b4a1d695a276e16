import Mathlib.Data.List.Basic
import Mathlib.Order.Lattice

/-!
# Stable sorting by a key

The stable sort of a list by a descending key is the only descending list with the same entries of
each key in the same order. So it may be computed by taking out, again and again, the first of the
entries with the greatest key.
-/

namespace HotBatch.StableSort

variable {α κ : Type} [LinearOrder κ]

/-- Greater keys come first. -/
def Descending (key : α → κ) (entries : List α) : Prop :=
  entries.Pairwise fun first second ↦ key second ≤ key first

/-- The order of two entries, as a test. -/
def precedes (key : α → κ) (first second : α) : Bool := decide (key second ≤ key first)

/-- Core's merge sort is stable. -/
def sortDescending (key : α → κ) (entries : List α) : List α := entries.mergeSort (precedes key)

/-- The entries of one key, in their order. -/
def ofKey (key : α → κ) (value : κ) (entries : List α) : List α :=
  entries.filter fun entry ↦ decide (key entry = value)

variable (key : α → κ)

theorem mem_ofKey {value : κ} {entries : List α} {entry : α} :
    entry ∈ ofKey key value entries ↔ entry ∈ entries ∧ key entry = value := by
  rw [ofKey, List.mem_filter, decide_eq_true_eq]

theorem ofKey_append (value : κ) (front back : List α) :
    ofKey key value (front ++ back) = ofKey key value front ++ ofKey key value back :=
  List.filter_append front back

theorem ofKey_cons_self (entry : α) (entries : List α) :
    ofKey key (key entry) (entry :: entries) = entry :: ofKey key (key entry) entries :=
  List.filter_cons_of_pos (decide_eq_true rfl)

theorem ofKey_cons_of_ne {value : κ} {entry : α} (hne : key entry ≠ value) (entries : List α) :
    ofKey key value (entry :: entries) = ofKey key value entries :=
  List.filter_cons_of_neg (by rwa [decide_eq_true_eq])

theorem ofKey_eq_nil {value : κ} {entries : List α} (hne : ∀ entry ∈ entries, key entry ≠ value) :
    ofKey key value entries = [] := by
  apply List.filter_eq_nil_iff.mpr
  intro entry hentry
  rw [decide_eq_true_eq]
  exact hne entry hentry

theorem Descending.key_le {first entry : α} {rest : List α}
    (hsorted : Descending key (first :: rest)) (hmem : entry ∈ first :: rest) :
    key entry ≤ key first := by
  cases hmem with
  | head => exact le_refl _
  | tail _ hrest => exact List.rel_of_pairwise_cons hsorted hrest

/-- A list with the same entries of the key of `first` has `first` among its entries. -/
theorem mem_of_ofKey_eq {first : α} {rest entries : List α}
    (hsame : ofKey key (key first) (first :: rest) = ofKey key (key first) entries) :
    first ∈ entries := by
  rw [ofKey_cons_self] at hsame
  exact ((mem_ofKey key).mp (hsame ▸ List.mem_cons_self)).1

/-- A descending list is determined by its entries of each key. -/
theorem Descending.eq_of_ofKey {left right : List α} (hleft : Descending key left)
    (hright : Descending key right)
    (hsame : ∀ value, ofKey key value left = ofKey key value right) : left = right := by
  induction left generalizing right with
  | nil =>
      cases right with
      | nil => rfl
      | cons first rest => cases mem_of_ofKey_eq key (hsame (key first)).symm
  | cons leftFirst leftRest ih =>
      cases right with
      | nil => cases mem_of_ofKey_eq key (hsame (key leftFirst))
      | cons rightFirst rightRest =>
          have hkey : key leftFirst = key rightFirst := by
            apply le_antisymm
            · exact Descending.key_le key hright (mem_of_ofKey_eq key (hsame _))
            · exact Descending.key_le key hleft (mem_of_ofKey_eq key (hsame _).symm)
          have hheads := hsame (key leftFirst)
          rw [ofKey_cons_self, hkey, ofKey_cons_self] at hheads
          obtain ⟨rfl, hrests⟩ := List.cons.inj hheads
          apply congrArg (leftFirst :: ·)
          apply ih (List.Pairwise.of_cons hleft) (List.Pairwise.of_cons hright)
          intro value
          by_cases hvalue : key leftFirst = value
          · exact hvalue ▸ hrests
          · calc ofKey key value leftRest
                _ = ofKey key value (leftFirst :: leftRest) := (ofKey_cons_of_ne key hvalue _).symm
                _ = ofKey key value (leftFirst :: rightRest) := hsame value
                _ = ofKey key value rightRest := ofKey_cons_of_ne key hvalue _

theorem precedes_iff {first second : α} : precedes key first second = true ↔ key second ≤ key first :=
  decide_eq_true_iff

theorem precedes_trans (first second third : α) (hfirst : precedes key first second = true)
    (hsecond : precedes key second third = true) : precedes key first third = true := by
  rw [precedes_iff] at hfirst hsecond ⊢
  exact hsecond.trans hfirst

theorem precedes_total (first second : α) :
    (precedes key first second || precedes key second first) = true := by
  rw [Bool.or_eq_true, precedes_iff, precedes_iff]
  exact le_total _ _

theorem descending_sortDescending (entries : List α) :
    Descending key (sortDescending key entries) :=
  (List.pairwise_mergeSort (precedes_trans key) (precedes_total key) entries).imp
    (precedes_iff key).mp

theorem sortDescending_perm (entries : List α) : (sortDescending key entries).Perm entries :=
  List.mergeSort_perm _ _

/-- Stability: sorting keeps the entries of one key in their order. -/
theorem ofKey_sortDescending (value : κ) (entries : List α) :
    ofKey key value (sortDescending key entries) = ofKey key value entries := by
  have hconstant : (ofKey key value entries).Pairwise fun first second ↦
      precedes key first second = true := by
    apply List.pairwise_of_forall_mem_list
    intro first hfirst second hsecond
    rw [precedes_iff, ((mem_ofKey key).mp hfirst).2, ((mem_ofKey key).mp hsecond).2]
  have hsublist : (ofKey key value entries).Sublist (sortDescending key entries) :=
    List.sublist_mergeSort (precedes_trans key) (precedes_total key) hconstant List.filter_sublist
  have hfiltered : (ofKey key value entries).Sublist
      (ofKey key value (sortDescending key entries)) := by
    have hfilter := hsublist.filter fun entry ↦ decide (key entry = value)
    simpa only [ofKey, List.filter_filter, Bool.and_self] using hfilter
  exact (hfiltered.eq_of_length ((sortDescending_perm key entries).filter _).length_eq.symm).symm

/-- The first of the entries with the greatest key is the first of the sorted list. -/
theorem sortDescending_eq_cons {front back : List α} {best : α}
    (hfront : ∀ entry ∈ front, key entry < key best) (hback : ∀ entry ∈ back, key entry ≤ key best) :
    sortDescending key (front ++ best :: back) = best :: sortDescending key (front ++ back) := by
  apply Descending.eq_of_ofKey key (descending_sortDescending key _)
  · apply List.Pairwise.cons
    · intro entry hentry
      cases List.mem_append.mp ((sortDescending_perm key _).subset hentry) with
      | inl hmem => exact (hfront entry hmem).le
      | inr hmem => exact hback entry hmem
    · exact descending_sortDescending key _
  · intro value
    rw [ofKey_sortDescending, ofKey_append]
    by_cases hvalue : key best = value
    · have hnone : ofKey key (key best) front = [] :=
        ofKey_eq_nil key fun entry hentry ↦ (hfront entry hentry).ne
      rw [← hvalue, hnone, ofKey_cons_self, ofKey_cons_self, ofKey_sortDescending, ofKey_append,
        hnone]
      rfl
    · rw [ofKey_cons_of_ne key hvalue, ofKey_cons_of_ne key hvalue, ofKey_sortDescending,
        ofKey_append]

end HotBatch.StableSort
