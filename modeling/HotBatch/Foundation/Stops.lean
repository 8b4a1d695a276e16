import Mathlib.Data.List.Infix

/-!
# Stops in a growing list

A list grows at its end, and must not be shown past the first place where one of the stops begins. So
an end that may still become a stop is withheld: the longest one that is a proper beginning of a stop.
An empty stop means nothing.
-/

namespace HotBatch.Stops

variable {β : Type*} (stops : List (List β))

/-- A stop occurs in the list. -/
def Meets (text : List β) : Prop := ∃ stop ∈ stops, stop ≠ [] ∧ stop <:+: text

/-- A non-empty proper beginning of a stop. -/
def StartsStop (part : List β) : Prop := part ≠ [] ∧ ∃ stop ∈ stops, part <+: stop ∧ part ≠ stop

/-- Everything is shown except the longest end that is a proper beginning of a stop. -/
def Withholds (text shown : List β) : Prop :=
  ∃ held, text = shown ++ held ∧ (held = [] ∨ StartsStop stops held) ∧
    ∀ part, StartsStop stops part → part <:+ text → part <:+ held

instance [DecidableEq β] (text : List β) : Decidable (Meets stops text) :=
  inferInstanceAs (Decidable (∃ stop ∈ stops, stop ≠ [] ∧ stop <:+: text))

variable {stops}

theorem Meets.mono {text longer : List β} (hmeets : Meets stops text) (hwithin : text <:+: longer) :
    Meets stops longer := by
  obtain ⟨stop, hstop, hne, hmeets⟩ := hmeets
  exact ⟨stop, hstop, hne, hmeets.trans hwithin⟩

/-- A list meets a stop when one of its beginnings ends with it. -/
theorem meets_iff_exists_suffix {text : List β} :
    Meets stops text ↔
      ∃ front, front <+: text ∧ ∃ stop ∈ stops, stop ≠ [] ∧ stop <:+ front := by
  constructor
  · rintro ⟨stop, hstop, hne, before, after, rfl⟩
    exact ⟨before ++ stop, List.prefix_append _ _, stop, hstop, hne, List.suffix_append _ _⟩
  · rintro ⟨front, hfront, stop, hstop, hne, hsuffix⟩
    exact ⟨stop, hstop, hne, hsuffix.isInfix.trans hfront.isInfix⟩

end HotBatch.Stops
