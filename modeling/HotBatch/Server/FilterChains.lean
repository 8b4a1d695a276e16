import HotBatch.Foundation.Stops
import HotBatch.Server.TextFilter
import Mathlib.Order.WellFounded

/-!
# The filter on whole chains of growing texts

A chain of texts, each a beginning of the next, is pushed until the first stop. After every other push
the filter has shown the text without its longest end that is a proper beginning of a stop. It stops at
the first text that contains a stop, and has then shown that text up to the earliest one.

Where the texts are cut matters when one stop is completed inside of another that starts earlier.
-/

namespace HotBatch

namespace Str

/-- A slice that does not panic lies between two prefixes of the text. -/
theorem slice_eq_some {text middle : Str} {start stop : ℕ} (hslice : slice text start stop = some middle) :
    ∃ left, byteLen left = start ∧ byteLen (left ++ middle) = stop ∧ left ++ middle <+: text := by
  unfold slice at hslice
  split at hslice
  · obtain ⟨⟨front, back⟩, hfront, hmiddle⟩ := Option.bind_eq_some_iff.mp hslice
    obtain ⟨⟨left, right⟩, hleft, hright⟩ := Option.map_eq_some_iff.mp hmiddle
    obtain ⟨rfl, hstop⟩ := splitAtByte_eq_some.mp hfront
    obtain ⟨hsplit, hstart⟩ := splitAtByte_eq_some.mp hleft
    obtain rfl : right = middle := hright
    have hsplit : front = left ++ right := hsplit
    exact ⟨left, hstart, hsplit ▸ hstop, hsplit ▸ List.prefix_append front back⟩
  · cases hslice

/-- Two prefixes of one text with as many bytes are the same. -/
theorem eq_of_byteLen_eq {text left right : Str} (hleft : left <+: text) (hright : right <+: text)
    (heq : byteLen left = byteLen right) : left = right := by
  obtain ⟨rest, rfl⟩ := prefix_of_byteLen_le hleft hright heq.le
  rw [byteLen_append] at heq
  have hrest : rest = [] := byteLen_eq_zero.mp (by omega)
  rw [hrest, List.append_nil]

/-- Of two ends of one text, the one with fewer bytes is an end of the other. -/
theorem suffix_of_byteLen_le {text left right : Str} (hleft : left <:+ text) (hright : right <:+ text)
    (hle : byteLen left ≤ byteLen right) : left <:+ right := by
  rcases List.suffix_or_suffix_of_suffix hleft hright with hends | ⟨rest, rfl⟩
  · exact hends
  · rw [byteLen_append] at hle
    have hrest : rest = [] := byteLen_eq_zero.mp (by omega)
    rw [hrest, List.nil_append]

end Str

namespace TextOutputFilter

open Str Stops

/-- The text is cut at the byte offset where the earliest stop starts. -/
def CutsAtStop (stops : List Str) (decoded shown : Str) : Prop :=
  (∃ stop ∈ stops, stop ≠ [] ∧ OccursAfter stop decoded shown) ∧
    ∀ stop ∈ stops, stop ≠ [] → ∀ position, OccursAfter stop decoded position →
      byteLen shown ≤ byteLen position

/-- Push a chain of texts until the first stop: the fragments, and whether there was a stop. -/
def pushAll : List Str → TextOutputFilter →
    Option (Except String (List Str × Bool) × TextOutputFilter)
  | [], filter => some (.ok ([], false), filter)
  | decoded :: chain, filter =>
      match filter.push decoded with
      | none => none
      | some (.error message, filter) => some (.error message, filter)
      | some (.ok (.stop text), filter) => some (.ok ([text], true), filter)
      | some (.ok (.continue text), filter) =>
          (pushAll chain filter).map fun result ↦
            (result.1.map fun rest ↦ (text :: rest.1, rest.2), result.2)

/-- What the fragments of a chain have to be, when `shown` has been shown before it: a text without a
stop is shown except for what must be withheld, and the first text with a stop is cut at it. -/
inductive Shows (stops : List Str) : Str → List Str → List Str → Bool → Prop
  | nil (shown : Str) : Shows stops shown [] [] false
  | «continue» {shown decoded text : Str} {chain fragments : List Str} {stopped : Bool}
      (hmeets : ¬ Meets stops decoded) (hwithholds : Withholds stops decoded (shown ++ text))
      (hrest : Shows stops (shown ++ text) chain fragments stopped) :
      Shows stops shown (decoded :: chain) (text :: fragments) stopped
  | stop {shown decoded text : Str} {chain : List Str} (hmeets : Meets stops decoded)
      (hcuts : CutsAtStop stops decoded (shown ++ text)) :
      Shows stops shown (decoded :: chain) [text] true

section Push

variable {filter : TextOutputFilter} {decoded longer : Str}

/-- What a push that continues has released ends where the withheld bytes begin. -/
theorem byteLen_of_continue {text : Str} {after : TextOutputFilter}
    (hpush : filter.push longer = some (.ok (.continue text), after)) :
    byteLen (filter.emitted ++ text) = byteLen longer - filter.heldBytes longer := by
  unfold push at hpush
  split at hpush
  · cases hpush
  · cases hearliest : filter.earliestStop longer with
    | some stopAt =>
        rw [hearliest] at hpush
        dsimp only at hpush
        split at hpush
        · cases hpush
        · obtain ⟨_, -, hresult⟩ := Option.bind_eq_some_iff.mp hpush
          cases hresult
    | none =>
        rw [hearliest] at hpush
        dsimp only at hpush
        split at hpush
        · cases hpush
        · obtain ⟨sliced, hslice, hresult⟩ := Option.bind_eq_some_iff.mp hpush
          obtain ⟨left, hleft, hlen, -⟩ := slice_eq_some hslice
          simp only [Option.some.injEq, Prod.mk.injEq, Except.ok.injEq,
            FilterUpdate.continue.injEq] at hresult
          obtain ⟨rfl, -⟩ := hresult
          rw [byteLen_append, ← hleft, ← byteLen_append]
          exact hlen

variable {stops : List Str} (hstops : ∀ stop, stop ∈ filter.stops ↔ stop ∈ stops ∧ stop ≠ [])

include hstops

theorem pending_iff {part : Str} :
    filter.Pending decoded part ↔
      part ≠ [] ∧ part <:+ decoded ∧ ∃ stop ∈ stops, part <+: stop := by
  unfold Pending
  refine and_congr_right fun hne ↦ and_congr_right fun _ ↦ ⟨?_, ?_⟩
  · rintro ⟨stop, hstop, hstarts⟩
    exact ⟨stop, ((hstops stop).mp hstop).1, hstarts⟩
  · rintro ⟨stop, hstop, hstarts⟩
    refine ⟨stop, (hstops stop).mpr ⟨hstop, ?_⟩, hstarts⟩
    rintro rfl
    exact hne (List.prefix_nil.mp hstarts)

/-- Where no stop occurs, the filter has withheld the longest end that is a proper beginning of one. -/
theorem withholds_of_holds {shown : Str} (hholds : filter.Holds decoded)
    (hemitted : filter.emitted = shown)
    (hlen : byteLen shown = byteLen decoded - filter.heldBytes decoded) :
    Withholds stops decoded shown := by
  obtain ⟨front, held, hsplit, -, hfront, hheld⟩ :=
    exists_safe_front hholds.stops_ne_nil decoded
  have hshown : shown <+: decoded := hemitted ▸ hholds.emitted_prefix
  have hsame : shown = front :=
    eq_of_byteLen_eq hshown ⟨held, hsplit.symm⟩ (hlen.trans hfront.symm)
  refine ⟨held, hsame ▸ hsplit, hheld.imp_right fun hpending ↦ ?_, ?_⟩
  · obtain ⟨hne, hsuffix, stop, hstop, hstarts⟩ := (pending_iff hstops).mp hpending
    refine ⟨hne, stop, hstop, hstarts, ?_⟩
    rintro rfl
    exact hholds.no_stop held ((hstops held).mpr ⟨hstop, hne⟩) hsuffix.isInfix
  · rintro part ⟨hne, stop, hstop, hstarts, -⟩ hsuffix
    have hle := hholds.pending_held part
      ((pending_iff hstops).mpr ⟨hne, hsuffix, stop, hstop, hstarts⟩)
    apply suffix_of_byteLen_le hsuffix ⟨front, hsplit.symm⟩
    rw [hemitted, hsame, hsplit, byteLen_append] at hle
    exact Nat.add_le_add_iff_left.mp hle

/-- **One push of a growing text.** -/
theorem push_exact (hholds : filter.Holds decoded) (hgrow : decoded <+: longer) :
    (Meets stops longer ∧ ∃ text after, filter.push longer = some (.ok (.stop text), after) ∧
      after.emitted = filter.emitted ++ text ∧ CutsAtStop stops longer (filter.emitted ++ text)) ∨
    (¬ Meets stops longer ∧ ∃ text after, filter.push longer = some (.ok (.continue text), after) ∧
      after.stops = filter.stops ∧ after.emitted = filter.emitted ++ text ∧ after.Holds longer ∧
      Withholds stops longer (filter.emitted ++ text)) := by
  rcases push_growing hholds hgrow with
    ⟨text, after, hpush, hemitted, ⟨stop, hstop, hoccurs⟩, hfirst⟩ | ⟨text, after, hpush, rfl, hafter⟩
  · obtain ⟨hmem, hne⟩ := (hstops stop).mp hstop
    refine Or.inl ⟨⟨stop, hmem, hne, exists_occursAfter_iff.mp ⟨_, hoccurs⟩⟩, text, after, hpush,
      hemitted, ⟨stop, hmem, hne, hoccurs⟩, fun other hother hotherNe ↦ ?_⟩
    exact hfirst other ((hstops other).mpr ⟨hother, hotherNe⟩)
  · have hsameStops : ∀ stop, stop ∈ ({ filter with emitted := filter.emitted ++ text } :
        TextOutputFilter).stops ↔ stop ∈ stops ∧ stop ≠ [] := hstops
    refine Or.inr ⟨?_, text, _, hpush, rfl, rfl, hafter, ?_⟩
    · rintro ⟨stop, hmem, hne, hmeets⟩
      exact hafter.no_stop stop ((hstops stop).mpr ⟨hmem, hne⟩) hmeets
    · exact withholds_of_holds hsameStops hafter rfl (byteLen_of_continue hpush)

/-- **A whole chain.** -/
theorem pushAll_growing (hholds : filter.Holds decoded) {chain : List Str}
    (hchain : (decoded :: chain).IsChain (· <+: ·)) :
    ∃ fragments stopped after,
      filter.pushAll chain = some (.ok (fragments, stopped), after) ∧
      after.emitted = filter.emitted ++ fragments.flatten ∧
      Shows stops filter.emitted chain fragments stopped ∧
      (stopped = false → after.Holds ((decoded :: chain).getLast (List.cons_ne_nil _ _))) := by
  induction chain generalizing filter decoded with
  | nil =>
      exact ⟨[], false, filter, rfl, (List.append_nil _).symm, .nil _, fun _ ↦ hholds⟩
  | cons longer chain ih =>
      obtain ⟨hgrow, hrest⟩ := List.isChain_cons_cons.mp hchain
      rcases push_exact hstops hholds hgrow with
        ⟨hmeets, text, after, hpush, hemitted, hcuts⟩ |
        ⟨hmeets, text, after, hpush, hsame, hemitted, hafter, hwithholds⟩
      · refine ⟨[text], true, after, ?_, ?_, .stop hmeets hcuts, fun hnot ↦ nomatch hnot⟩
        · simp only [pushAll, hpush]
        · rw [hemitted, List.flatten_singleton]
      · obtain ⟨fragments, stopped, last, hpushAll, hlast, hshows, hholdsLast⟩ :=
          ih (hsame ▸ hstops) hafter hrest
        rw [hemitted] at hlast hshows
        refine ⟨text :: fragments, stopped, last, ?_, ?_, .continue hmeets hwithholds hshows, ?_⟩
        · simp only [pushAll, hpush, hpushAll]
          rfl
        · rw [hlast, List.append_assoc, List.flatten_cons]
        · rw [List.getLast_cons (List.cons_ne_nil _ _)]
          exact hholdsLast

end Push

theorem mem_new_stops (stops : List Str) (stop : Str) :
    stop ∈ (new stops).stops ↔ stop ∈ stops ∧ stop ≠ [] := by
  simp [new]

/-- A chain can be pushed into a fresh filter. -/
theorem pushAll_new (stops : List Str) {chain : List Str} (hchain : chain.IsChain (· <+: ·)) :
    ∃ fragments stopped filter,
      (new stops).pushAll chain = some (.ok (fragments, stopped), filter) ∧
      filter.emitted = fragments.flatten ∧ Shows stops [] chain fragments stopped ∧
      (stopped = false → ∀ last ∈ chain.getLast?, filter.Holds last) := by
  have hextended : ([] :: chain).IsChain (· <+: ·) := by
    cases chain with
    | nil => exact .singleton _
    | cons decoded chain => exact List.isChain_cons_cons.mpr ⟨List.nil_prefix, hchain⟩
  obtain ⟨fragments, stopped, filter, hpush, hemitted, hshows, hholds⟩ :=
    pushAll_growing (mem_new_stops stops) (holds_new stops) hextended
  refine ⟨fragments, stopped, filter, hpush, hemitted, hshows, fun hstopped last hlast ↦ ?_⟩
  have hsome := hholds hstopped
  cases chain with
  | nil => cases hlast
  | cons decoded chain =>
      rw [List.getLast?_eq_some_getLast (List.cons_ne_nil _ _)] at hlast
      obtain rfl := Option.some.inj hlast
      exact hsome

/-- A filter releases what it has withheld when the generation finishes. -/
theorem finish_of_starts {filter : TextOutputFilter} {decoded : Str}
    (hstarts : filter.emitted <+: decoded) :
    ∃ text after, filter.finish decoded = (.ok text, after) ∧ filter.emitted ++ text = decoded := by
  obtain ⟨rest, rfl⟩ := hstarts
  unfold finish
  rw [if_pos (List.prefix_append _ _)]
  exact ⟨_, _, rfl, by simp⟩

/-- **The filter is exact on growing text.** For every list of stops, of which the empty ones mean
nothing, and every chain of texts that extend each other, pushing never fails and never panics; after
every push that continues, what has been shown is the text without its longest end that is a non-empty
proper beginning of a stop; the first text that contains a stop is the one that stops, and has then
been shown up to the least offset of a stop; and without a stop, finishing shows the rest. -/
theorem filter_exact (stops : List Str) (chain : List Str) (hchain : chain.IsChain (· <+: ·)) :
    ∃ fragments stopped filter,
      (new stops).pushAll chain = some (.ok (fragments, stopped), filter) ∧
      Shows stops [] chain fragments stopped ∧
      (stopped = false → ∀ last ∈ chain.getLast?, ∃ text after,
        filter.finish last = (.ok text, after) ∧ fragments.flatten ++ text = last) := by
  obtain ⟨fragments, stopped, filter, hpush, hemitted, hshows, hholds⟩ := pushAll_new stops hchain
  refine ⟨fragments, stopped, filter, hpush, hshows, fun hstopped last hlast ↦ ?_⟩
  rw [← hemitted]
  exact finish_of_starts (Holds.emitted_prefix (hholds hstopped last hlast))

theorem filter_exact_overlapping :
    ∃ fragments stopped filter,
      (new ["bc end".toList, " end".toList]).pushAll ["abc".toList, "abc end".toList] =
        some (.ok (fragments, stopped), filter) ∧
      Shows ["bc end".toList, " end".toList] [] ["abc".toList, "abc end".toList] fragments
        stopped := by
  obtain ⟨fragments, stopped, filter, hpush, hshows, -⟩ :=
    filter_exact ["bc end".toList, " end".toList] ["abc".toList, "abc end".toList] (by decide)
  exact ⟨fragments, stopped, filter, hpush, hshows⟩

/-- An empty stop occurs in every text, and the filter does not stop at it. -/
theorem empty_stop_ignored :
    ([] : Str) <:+: "a".toList ∧
      ((new [[]]).push "a".toList).map Prod.fst = some (.ok (.continue "a".toList)) := by
  decide

/-! ## Two chains of one text -/

/-- The first text of a chain that contains a stop. -/
def FirstMeeting (stops : List Str) (chain : List Str) (decoded : Str) : Prop :=
  ∃ earlier later, chain = earlier ++ decoded :: later ∧ (∀ text ∈ earlier, ¬ Meets stops text) ∧
    Meets stops decoded

theorem FirstMeeting.mem {stops : List Str} {chain : List Str} {decoded : Str}
    (hfirst : FirstMeeting stops chain decoded) : decoded ∈ chain := by
  obtain ⟨earlier, later, rfl, -⟩ := hfirst
  exact List.mem_append_right _ List.mem_cons_self

/-- A chain stops at its first text with a stop, and is cut there. -/
theorem Shows.outcome {stops : List Str} {shown : Str} {chain fragments : List Str} {stopped : Bool}
    (hshows : Shows stops shown chain fragments stopped) :
    (stopped = false ∧ ∀ decoded ∈ chain, ¬ Meets stops decoded) ∨
      (stopped = true ∧ ∃ decoded, FirstMeeting stops chain decoded ∧
        CutsAtStop stops decoded (shown ++ fragments.flatten)) := by
  induction hshows with
  | nil _ => exact Or.inl ⟨rfl, fun _ hmem ↦ nomatch hmem⟩
  | @«continue» shown decoded text chain fragments stopped hmeets _ _ ih =>
      rw [List.append_assoc, ← List.flatten_cons] at ih
      refine ih.imp ?_ ?_
      · rintro ⟨hstopped, hnone⟩
        exact ⟨hstopped, List.forall_mem_cons.mpr ⟨hmeets, hnone⟩⟩
      · rintro ⟨hstopped, other, ⟨earlier, later, rfl, hearlier, hother⟩, hcuts⟩
        exact ⟨hstopped, other, ⟨decoded :: earlier, later, rfl,
          List.forall_mem_cons.mpr ⟨hmeets, hearlier⟩, hother⟩, hcuts⟩
  | @stop shown decoded text chain hmeets hcuts =>
      refine Or.inr ⟨rfl, decoded, ⟨[], chain, rfl, ?_, hmeets⟩, ?_⟩
      · exact fun _ hmem ↦ nomatch hmem
      · rwa [List.flatten_singleton]

/-- What is visible in the end, and whether it was stopped: push until the first stop, otherwise finish
on the last text. -/
def filtered (stops : List Str) (chain : List Str) : Option (Except String (Str × Bool)) :=
  match (new stops).pushAll chain with
  | none => none
  | some (.error message, _) => some (.error message)
  | some (.ok (fragments, true), _) => some (.ok (fragments.flatten, true))
  | some (.ok (fragments, false), filter) =>
      some ((filter.finish (chain.getLast?.getD [])).1.map fun text ↦ (fragments.flatten ++ text, false))

/-- The chains that a full text can arrive in. -/
def Delivers (full : Str) (chain : List Str) : Prop :=
  chain.IsChain (· <+: ·) ∧ chain.getLast? = some full

/-- Some occurrence of a stop both starts first and ends first. -/
def FirstStopEndsFirst (stops : List Str) (full : Str) : Prop :=
  ∃ stop ∈ stops, stop ≠ [] ∧ ∃ before, OccursAfter stop full before ∧
    ∀ other ∈ stops, other ≠ [] → ∀ position, OccursAfter other full position →
      byteLen before ≤ byteLen position ∧
        byteLen (before ++ stop) ≤ byteLen (position ++ other)

section Delivered

variable {stops : List Str} {full : Str} {chain : List Str}

theorem Delivers.starts (hdelivers : Delivers full chain) {decoded : Str} (hmem : decoded ∈ chain) :
    decoded <+: full := by
  obtain ⟨hchain, hlast⟩ := hdelivers
  obtain ⟨front, rfl⟩ := List.getLast?_eq_some_iff.mp hlast
  rcases List.mem_append.mp hmem with hold | hnew
  · have hpairs := List.isChain_iff_pairwise.mp hchain
    exact (List.pairwise_append.mp hpairs).2.2 decoded hold full (List.mem_singleton_self full)
  · rw [List.mem_singleton.mp hnew]

theorem Delivers.full_mem (hdelivers : Delivers full chain) : full ∈ chain :=
  List.mem_of_getLast? hdelivers.2

/-- What a chain shows of the full text in the end. -/
theorem filtered_of_delivers (stops : List Str) (hdelivers : Delivers full chain) :
    (¬ Meets stops full ∧ filtered stops chain = some (.ok (full, false))) ∨
      (Meets stops full ∧ ∃ decoded, FirstMeeting stops chain decoded ∧ ∃ shown,
        CutsAtStop stops decoded shown ∧ filtered stops chain = some (.ok (shown, true))) := by
  obtain ⟨fragments, stopped, filter, hpush, hemitted, hshows, hholds⟩ :=
    pushAll_new stops hdelivers.1
  rcases hshows.outcome with ⟨rfl, hnone⟩ | ⟨rfl, decoded, hfirst, hcuts⟩
  · obtain ⟨text, after, hfinish, htext⟩ :=
      finish_of_starts (Holds.emitted_prefix (hholds rfl full hdelivers.2))
    refine Or.inl ⟨hnone full hdelivers.full_mem, ?_⟩
    unfold filtered
    rw [hpush, hdelivers.2]
    simp only [Option.getD_some, hfinish, Except.map]
    rw [← hemitted, htext]
  · have hmeets : Meets stops decoded := by
      obtain ⟨-, -, -, -, hmeets⟩ := hfirst
      exact hmeets
    refine Or.inr ⟨hmeets.mono (hdelivers.starts hfirst.mem).isInfix, decoded, hfirst,
      fragments.flatten, hcuts, ?_⟩
    unfold filtered
    rw [hpush]

/-- The full text at once is cut where the stop that starts earliest does. -/
theorem filtered_singleton (hmeets : Meets stops full) :
    ∃ shown, CutsAtStop stops full shown ∧ filtered stops [full] = some (.ok (shown, true)) := by
  rcases filtered_of_delivers stops ⟨.singleton full, rfl⟩ with
    ⟨hnone, -⟩ | ⟨-, decoded, hfirst, shown, hcuts, hfiltered⟩
  · exact absurd hmeets hnone
  · obtain rfl := List.mem_singleton.mp hfirst.mem
    exact ⟨shown, hcuts, hfiltered⟩

/-- An occurrence in a beginning of a text is one in the text. -/
theorem occursAfter_mono {stop decoded position : Str} (hstarts : decoded <+: full)
    (hoccurs : OccursAfter stop decoded position) : OccursAfter stop full position :=
  List.IsPrefix.trans hoccurs hstarts

/-- If a stop starts first and ends first, every chain is cut there. -/
theorem shown_of_firstStopEndsFirst {stop before decoded shown : Str} (hstop : stop ∈ stops)
    (hne : stop ≠ []) (hoccurs : OccursAfter stop full before)
    (hfirst : ∀ other ∈ stops, other ≠ [] → ∀ position, OccursAfter other full position →
      byteLen before ≤ byteLen position ∧ byteLen (before ++ stop) ≤ byteLen (position ++ other))
    (hstarts : decoded <+: full) (hcuts : CutsAtStop stops decoded shown) : shown = before := by
  obtain ⟨⟨other, hother, hotherNe, hinside⟩, hleast⟩ := hcuts
  have hfull := occursAfter_mono hstarts hinside
  obtain ⟨hle, hends⟩ := hfirst other hother hotherNe shown hfull
  -- The stop that ends first is complete as soon as any other is.
  have hcomplete : OccursAfter stop decoded before :=
    (prefix_of_byteLen_le hoccurs hfull hends).trans hinside
  have hge := hleast stop hstop hne before hcomplete
  exact eq_of_byteLen_eq ((List.prefix_append _ _).trans hfull)
    ((List.prefix_append _ _).trans hoccurs) (Nat.le_antisymm hge hle)

/-- Some stop ends first. -/
theorem exists_ends_first (hmeets : Meets stops full) :
    ∃ stop ∈ stops, stop ≠ [] ∧ ∃ position, OccursAfter stop full position ∧
      ∀ other ∈ stops, other ≠ [] → ∀ place, OccursAfter other full place →
        byteLen (position ++ stop) ≤ byteLen (place ++ other) := by
  obtain ⟨stop, hstop, hne, hinside⟩ := hmeets
  obtain ⟨position, hposition⟩ := exists_occursAfter_iff.mpr hinside
  obtain ⟨least, ⟨first, hfirst, hfirstNe, place, hplace, rfl⟩, hleast⟩ :=
    WellFounded.has_min Nat.lt_wfRel.wf
      {bytes | ∃ stop ∈ stops, stop ≠ [] ∧ ∃ position, OccursAfter stop full position ∧
        byteLen (position ++ stop) = bytes} ⟨_, stop, hstop, hne, position, hposition, rfl⟩
  refine ⟨first, hfirst, hfirstNe, place, hplace, fun other hother hotherNe elsewhere hoccurs ↦ ?_⟩
  exact Nat.not_lt.mp (hleast _ ⟨other, hother, hotherNe, elsewhere, hoccurs, rfl⟩)

/-- A chain that is cut right behind a stop is stopped there. -/
theorem filtered_pair {front shown : Str} (hstarts : front <+: full) (hmeets : Meets stops front)
    (hfiltered : filtered stops [front, full] = some (.ok (shown, true))) :
    CutsAtStop stops front shown := by
  have hdelivers : Delivers full [front, full] :=
    ⟨List.isChain_cons_cons.mpr ⟨hstarts, .singleton full⟩, rfl⟩
  rcases filtered_of_delivers stops hdelivers with
    ⟨hnone, -⟩ | ⟨-, decoded, ⟨earlier, later, hsplit, hearlier, -⟩, other, hcuts, hother⟩
  · exact absurd (hmeets.mono hstarts.isInfix) hnone
  · obtain ⟨rfl, -⟩ := Prod.mk.inj (Except.ok.inj (Option.some.inj (hfiltered.symm.trans hother)))
    cases earlier with
    | nil =>
        obtain ⟨rfl, -⟩ := List.cons.inj hsplit
        exact hcuts
    | cons text earlier =>
        obtain ⟨rfl, -⟩ := List.cons.inj hsplit
        exact absurd hmeets (hearlier front List.mem_cons_self)

/-- If all chains show the same, a stop that starts first also ends first. -/
theorem firstStopEndsFirst_of_agree (hmeets : Meets stops full)
    (hagree : ∀ left right, Delivers full left → Delivers full right →
      filtered stops left = filtered stops right) : FirstStopEndsFirst stops full := by
  obtain ⟨stop, hstop, hne, position, hoccurs, hends⟩ := exists_ends_first hmeets
  obtain ⟨shown, ⟨-, hstartsFirst⟩, hfiltered⟩ := filtered_singleton hmeets
  have hmeetsFront : Meets stops (position ++ stop) :=
    ⟨stop, hstop, hne, (List.suffix_append position stop).isInfix⟩
  have hpair := hagree [position ++ stop, full] [full]
    ⟨List.isChain_cons_cons.mpr ⟨hoccurs, .singleton full⟩, rfl⟩ ⟨.singleton full, rfl⟩
  obtain ⟨⟨other, hother, hotherNe, hinside⟩, -⟩ :=
    filtered_pair hoccurs hmeetsFront (hpair.trans hfiltered)
  -- The stop that is shown to start first lies within the front, so it ends first, too.
  refine ⟨other, hother, hotherNe, shown, occursAfter_mono hoccurs hinside,
    fun third hthird hthirdNe place hplace ↦ ⟨hstartsFirst third hthird hthirdNe place hplace, ?_⟩⟩
  calc byteLen (shown ++ other)
      ≤ byteLen (position ++ stop) := byteLen_le_of_starts hinside
    _ ≤ byteLen (place ++ third) := hends third hthird hthirdNe place hplace

/-- **When the chunks do not matter.** For every list of stops, of which the empty ones mean nothing,
and every full text: all chains of growing texts that end in it agree on whether there is a stop, show
the whole text if there is none, and otherwise show the first text with a stop up to the earliest one;
pushing the full text at once cuts it where the earliest stop starts; and all chains show the same
exactly if a stop that starts first also ends first. -/
theorem chains_agree_iff (stops : List Str) (full : Str) :
    (∀ chain, Delivers full chain →
      (¬ Meets stops full → filtered stops chain = some (.ok (full, false))) ∧
      (Meets stops full → ∃ decoded, FirstMeeting stops chain decoded ∧ ∃ shown,
        CutsAtStop stops decoded shown ∧ filtered stops chain = some (.ok (shown, true)))) ∧
    (Meets stops full → ∃ shown, CutsAtStop stops full shown ∧
      filtered stops [full] = some (.ok (shown, true))) ∧
    ((∀ left right, Delivers full left → Delivers full right →
      filtered stops left = filtered stops right) ↔
        (Meets stops full → FirstStopEndsFirst stops full)) := by
  refine ⟨fun chain hdelivers ↦ ?_, filtered_singleton,
    fun hagree hmeets ↦ firstStopEndsFirst_of_agree hmeets hagree, ?_⟩
  · rcases filtered_of_delivers stops hdelivers with
      ⟨hnone, hfiltered⟩ | ⟨hmeets, hshown⟩
    · exact ⟨fun _ ↦ hfiltered, fun hmeets ↦ absurd hmeets hnone⟩
    · exact ⟨fun hnone ↦ absurd hmeets hnone, fun _ ↦ hshown⟩
  · intro hfirst left right hleft hright
    rcases filtered_of_delivers stops hleft with
      ⟨hnone, hfilteredLeft⟩ | ⟨hmeets, decodedLeft, hmemLeft, shownLeft, hcutsLeft, hfilteredLeft⟩
    · rcases filtered_of_delivers stops hright with
        ⟨-, hfilteredRight⟩ | ⟨hmeets, -⟩
      · rw [hfilteredLeft, hfilteredRight]
      · exact absurd hmeets hnone
    · rcases filtered_of_delivers stops hright with
        ⟨hnone, -⟩ | ⟨-, decodedRight, hmemRight, shownRight, hcutsRight, hfilteredRight⟩
      · exact absurd hmeets hnone
      · obtain ⟨stop, hstop, hne, before, hoccurs, hends⟩ := hfirst hmeets
        rw [hfilteredLeft, hfilteredRight,
          shown_of_firstStopEndsFirst hstop hne hoccurs hends (hleft.starts hmemLeft.mem) hcutsLeft,
          shown_of_firstStopEndsFirst hstop hne hoccurs hends (hright.starts hmemRight.mem)
            hcutsRight]

end Delivered

/-- Of two overlapping stops the one that starts first also ends first, however the text arrives. -/
theorem chains_agree_iff_overlapping :
    filtered ["bc".toList, "cd".toList] ["ab".toList, "abc".toList, "abcd".toList] =
        filtered ["bc".toList, "cd".toList] ["abcd".toList] ∧
      filtered ["bc".toList, "cd".toList] ["abcd".toList] = some (.ok ("a".toList, true)) ∧
      filtered ["bc".toList, "cd".toList] ["a".toList, "abd".toList] =
        some (.ok ("abd".toList, false)) := by
  have hfirst : FirstStopEndsFirst ["bc".toList, "cd".toList] "abcd".toList := by
    have hleast : ∀ other ∈ ["bc".toList, "cd".toList], ∀ position ∈ "abcd".toList.inits,
        position ++ other <+: "abcd".toList →
          byteLen "a".toList ≤ byteLen position ∧
            byteLen ("a".toList ++ "bc".toList) ≤ byteLen (position ++ other) := by decide
    refine ⟨"bc".toList, by decide, by decide, "a".toList, by unfold OccursAfter; decide, ?_⟩
    intro other hother _ position hoccurs
    have hposition := (List.prefix_append position other).trans hoccurs
    exact hleast other hother position ((List.mem_inits _ _).mpr hposition) hoccurs
  refine ⟨?_, by decide, ?_⟩
  · exact (chains_agree_iff _ "abcd".toList).2.2.mpr (fun _ ↦ hfirst) _ _ ⟨by decide, rfl⟩
      ⟨by decide, rfl⟩
  · exact ((chains_agree_iff _ "abd".toList).1 _ ⟨by decide, rfl⟩).1 (by decide)

/-- A stop that is completed inside of a longer one ends the generation, unless both arrive at once. -/
theorem chunks_matter :
    Delivers "abcd".toList ["abc".toList, "abcd".toList] ∧ Delivers "abcd".toList ["abcd".toList] ∧
      filtered ["abcd".toList, "bc".toList] ["abc".toList, "abcd".toList] =
        some (.ok ("a".toList, true)) ∧
      filtered ["abcd".toList, "bc".toList] ["abcd".toList] = some (.ok ([], true)) :=
  ⟨⟨by decide, rfl⟩, ⟨by decide, rfl⟩, by decide, by decide⟩

end TextOutputFilter

end HotBatch
