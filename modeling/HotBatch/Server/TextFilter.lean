import HotBatch.Foundation.Str

/-!
# The stop-text filter

`TextOutputFilter` is fed the whole decoded text again and again as it grows, and releases the part
that can no longer become part of a stop text. Slices that would panic make `push` return `none`;
`push_isSome` shows that no text whatsoever makes it panic.

On growing texts the filter is exact. `Holds` says what the filter knows after text `decoded`: no
stop occurs in it and only an end that starts some stop is withheld. `push_growing` says what the
next push does, and everything about the two response paths is derived from that one statement.
-/

namespace HotBatch

inductive FilterUpdate where
  | «continue» (text : Str)
  | stop (text : Str)
  deriving DecidableEq

structure TextOutputFilter where
  stops : List Str
  emitted : Str

namespace TextOutputFilter

open Str

def new (stops : List Str) : TextOutputFilter where
  stops := stops.filter fun stop ↦ !stop.isEmpty
  emitted := []

/-- Bytes of the longest start of `stop` that the text ends with. -/
def heldBytesOf (decoded stop : Str) : ℕ :=
  (((prefixEnds stop).filter fun stopEnd ↦
    (slice stop 0 stopEnd).any fun part ↦ decide (part <:+ decoded)).max?).getD 0

/-- Bytes of the text that may still become part of a stop. -/
def heldBytes (filter : TextOutputFilter) (decoded : Str) : ℕ :=
  ((filter.stops.map (heldBytesOf decoded)).max?).getD 0

/-- Byte offset of the stop that starts first. -/
def earliestStop (filter : TextOutputFilter) (decoded : Str) : Option ℕ :=
  (filter.stops.filterMap fun stop ↦ find stop decoded).min?

/-- `push`; `none` where a slice panics. -/
def push (decoded : Str) (filter : TextOutputFilter) :
    Option (Except String FilterUpdate × TextOutputFilter) :=
  if ¬ filter.emitted <+: decoded then
    some (.error "incremental token decoding changed already emitted text", filter)
  else
    match filter.earliestStop decoded with
    | some stopAt =>
        if stopAt < byteLen filter.emitted then
          some (.error "a stop sequence appeared in already emitted text", filter)
        else do
          let text ← slice decoded (byteLen filter.emitted) stopAt
          some (.ok (.stop text), { filter with emitted := filter.emitted ++ text })
    | none =>
        let safeEnd := byteLen decoded - filter.heldBytes decoded
        if safeEnd < byteLen filter.emitted ∨ ¬ isCharBoundary decoded safeEnd then
          some (.error "stop-sequence buffering crossed already emitted text", filter)
        else do
          let text ← slice decoded (byteLen filter.emitted) safeEnd
          some (.ok (.continue text), { filter with emitted := filter.emitted ++ text })

/-- `finish`: release everything that has not been emitted yet. -/
def finish (decoded : Str) (filter : TextOutputFilter) : Except String Str × TextOutputFilter :=
  if filter.emitted <+: decoded then
    let text := decoded.drop filter.emitted.length
    (.ok text, { filter with emitted := filter.emitted ++ text })
  else (.error "incremental token decoding changed already emitted text", filter)

/-! ## The measures that `push` uses -/

/-- `part` is a non-empty start of a stop that the text ends with. -/
def Pending (filter : TextOutputFilter) (decoded part : Str) : Prop :=
  part ≠ [] ∧ part <:+ decoded ∧ ∃ stop ∈ filter.stops, part <+: stop

/-- The slices of a stop that `push` compares with are its non-empty prefixes, so none of them
panics. -/
theorem slice_prefixEnd {stop : Str} (hne : stop ≠ []) {stopEnd : ℕ}
    (hmem : stopEnd ∈ prefixEnds stop) :
    ∃ part, part ≠ [] ∧ part <+: stop ∧ byteLen part = stopEnd ∧
      slice stop 0 stopEnd = some part := by
  obtain ⟨part, hpart, hstarts, rfl⟩ := (mem_prefixEnds hne).mp hmem
  exact ⟨part, hpart, hstarts, rfl, slice_zero hstarts⟩

theorem byteLen_le_heldBytes {filter : TextOutputFilter} {decoded part : Str}
    (hpending : filter.Pending decoded part) : byteLen part ≤ filter.heldBytes decoded := by
  obtain ⟨hne, hsuffix, stop, hstop, hstarts⟩ := hpending
  have hstopNe : stop ≠ [] := by
    rintro rfl
    exact hne (List.prefix_nil.mp hstarts)
  have hslice : slice stop 0 (byteLen part) = some part := slice_zero hstarts
  calc byteLen part
      ≤ heldBytesOf decoded stop := by
        apply List.le_max?_getD_of_mem
        rw [List.mem_filter, mem_prefixEnds hstopNe, hslice]
        exact ⟨⟨part, hne, hstarts, rfl⟩, decide_eq_true hsuffix⟩
    _ ≤ filter.heldBytes decoded := by
        apply List.le_max?_getD_of_mem
        exact List.mem_map_of_mem hstop

/-- Withheld bytes are those of a pending part. -/
theorem heldBytes_spec {filter : TextOutputFilter} (hstops : ∀ stop ∈ filter.stops, stop ≠ [])
    (decoded : Str) :
    filter.heldBytes decoded = 0 ∨
      ∃ part, filter.Pending decoded part ∧ byteLen part = filter.heldBytes decoded := by
  unfold heldBytes
  cases hmax : (filter.stops.map (heldBytesOf decoded)).max? with
  | none => exact Or.inl rfl
  | some held =>
      obtain ⟨stop, hstop, rfl⟩ := List.mem_map.mp (List.max?_mem hmax)
      rw [Option.getD_some]
      unfold heldBytesOf
      generalize hends : List.filter _ (prefixEnds stop) = ends
      cases hlongest : ends.max? with
      | none => exact Or.inl rfl
      | some longest =>
          have hmem : longest ∈ ends := List.max?_mem hlongest
          rw [← hends, List.mem_filter] at hmem
          obtain ⟨part, hne, hstarts, hlen, hslice⟩ :=
            slice_prefixEnd (hstops stop hstop) hmem.1
          have hsuffix : part <:+ decoded := by simpa [hslice] using hmem.2
          exact Or.inr ⟨part, ⟨hne, hsuffix, stop, hstop, hstarts⟩, hlen⟩

/-- The safe end is the end of the text without its longest pending part. -/
theorem exists_safe_front {filter : TextOutputFilter} (hstops : ∀ stop ∈ filter.stops, stop ≠ [])
    (decoded : Str) :
    ∃ front part, decoded = front ++ part ∧ byteLen part = filter.heldBytes decoded ∧
      byteLen front = byteLen decoded - filter.heldBytes decoded ∧
      (part = [] ∨ filter.Pending decoded part) := by
  rcases heldBytes_spec hstops decoded with hzero | ⟨part, hpending, hlen⟩
  · exact ⟨decoded, [], (List.append_nil _).symm, hzero.symm, by rw [hzero]; rfl, Or.inl rfl⟩
  · obtain ⟨front, hfront⟩ := hpending.2.1
    refine ⟨front, part, hfront.symm, hlen, ?_, Or.inr hpending⟩
    rw [← hlen, ← hfront, byteLen_append]
    omega

theorem earliestStop_eq_none {filter : TextOutputFilter} {decoded : Str} :
    filter.earliestStop decoded = none ↔ ∀ stop ∈ filter.stops, ¬ stop <:+: decoded := by
  unfold earliestStop
  rw [List.min?_eq_none_iff, List.filterMap_eq_nil_iff]
  exact forall₂_congr fun _ _ ↦ find_eq_none

/-- The earliest stop is an occurrence of a stop, and no stop occurs before it. -/
theorem earliestStop_eq_some {filter : TextOutputFilter} {decoded : Str} {stopAt : ℕ}
    (hearliest : filter.earliestStop decoded = some stopAt) :
    ∃ stop ∈ filter.stops, ∃ before, byteLen before = stopAt ∧ OccursAfter stop decoded before ∧
      ∀ other ∈ filter.stops, ∀ position, OccursAfter other decoded position →
        byteLen before ≤ byteLen position := by
  obtain ⟨hmem, hleast⟩ := List.min?_eq_some_iff.mp hearliest
  obtain ⟨stop, hstop, hfind⟩ := List.mem_filterMap.mp hmem
  obtain ⟨before, hlen, hoccurs, -⟩ := find_eq_some hfind
  refine ⟨stop, hstop, before, hlen, hoccurs, ?_⟩
  intro other hother position hposition
  obtain ⟨found, hfound⟩ : ∃ found, find other decoded = some found := by
    rw [← Option.ne_none_iff_exists', Ne, find_eq_none, not_not]
    exact exists_occursAfter_iff.mp ⟨position, hposition⟩
  obtain ⟨-, -, -, hfirst⟩ := find_eq_some hfound
  calc byteLen before = stopAt := hlen
    _ ≤ found := hleast _ (List.mem_filterMap.mpr ⟨other, hother, hfound⟩)
    _ ≤ byteLen position := hfirst position hposition

/-- **No text makes `push` panic.** -/
theorem push_isSome (decoded : Str) (filter : TextOutputFilter) :
    (filter.push decoded).isSome = true := by
  unfold push
  by_cases hstarts : filter.emitted <+: decoded
  swap
  · rw [if_pos hstarts]
    rfl
  -- Both slices start at the end of the emitted prefix and end at the end of a longer prefix.
  have hslice : ∀ before, before <+: decoded → byteLen filter.emitted ≤ byteLen before →
      ∃ text, slice decoded (byteLen filter.emitted) (byteLen before) = some text := by
    intro before hbefore hle
    obtain ⟨text, rfl⟩ := prefix_of_byteLen_le hstarts hbefore hle
    exact ⟨text, slice_byteLen hbefore⟩
  rw [if_neg (not_not.mpr hstarts)]
  cases hearliest : filter.earliestStop decoded with
  | some stopAt =>
      obtain ⟨stop, -, before, rfl, hoccurs, -⟩ := earliestStop_eq_some hearliest
      dsimp only
      split
      · rfl
      · rename_i hle
        obtain ⟨text, htext⟩ := hslice before ((List.prefix_append _ _).trans hoccurs)
          (Nat.not_lt.mp hle)
        rw [htext]
        rfl
  | none =>
      dsimp only
      split
      · rfl
      · rename_i hsafe
        rw [not_or, not_not] at hsafe
        obtain ⟨before, hbefore, hlen⟩ := isCharBoundary_iff.mp hsafe.2
        rw [← hlen] at hsafe ⊢
        obtain ⟨text, htext⟩ := hslice before hbefore (Nat.not_lt.mp hsafe.1)
        rw [htext]
        rfl

/-! ## Growing texts -/

/-- What the filter knows after the text `decoded` has been pushed without meeting a stop. -/
structure Holds (filter : TextOutputFilter) (decoded : Str) : Prop where
  stops_ne_nil : ∀ stop ∈ filter.stops, stop ≠ []
  emitted_prefix : filter.emitted <+: decoded
  no_stop : ∀ stop ∈ filter.stops, ¬ stop <:+: decoded
  pending_held : ∀ part, filter.Pending decoded part →
    byteLen filter.emitted + byteLen part ≤ byteLen decoded

theorem holds_new (stops : List Str) : (new stops).Holds [] where
  stops_ne_nil := by
    intro stop hstop
    have hne := (List.mem_filter.mp hstop).2
    rintro rfl
    cases hne
  emitted_prefix := List.prefix_rfl
  no_stop := by
    intro stop hstop hwithin
    have hne := (List.mem_filter.mp hstop).2
    rw [List.infix_nil.mp hwithin] at hne
    cases hne
  pending_held := by
    rintro part ⟨hne, hsuffix, -⟩
    exact absurd (List.suffix_nil.mp hsuffix) hne

/-- Where a stop, or the start of one, reaches past the old text, it begins after everything that
was emitted. -/
theorem Holds.emitted_le {filter : TextOutputFilter} {decoded : Str} (hholds : filter.Holds decoded)
    {front part stop : Str} (hstop : stop ∈ filter.stops) (hpart : part <+: stop)
    (hreach : decoded <+: front ++ part) : byteLen filter.emitted ≤ byteLen front := by
  by_contra hlt
  have hlt : byteLen front < byteLen filter.emitted := Nat.not_le.mp hlt
  have hfront : front <+: decoded :=
    (prefix_of_byteLen_le (List.prefix_append front part) (hholds.emitted_prefix.trans hreach)
      hlt.le).trans hholds.emitted_prefix
  obtain ⟨rest, rfl⟩ := hfront
  have hrestPart : rest <+: part := (List.prefix_append_right_inj front).mp hreach
  have hemitted := byteLen_le_of_starts hholds.emitted_prefix
  rw [byteLen_append] at hemitted
  have hrestNe : rest ≠ [] := by
    rintro rfl
    rw [byteLen_nil] at hemitted
    omega
  have hheld := hholds.pending_held rest
    ⟨hrestNe, List.suffix_append front rest, stop, hstop, hrestPart.trans hpart⟩
  rw [byteLen_append] at hheld
  omega

/-- **The filter is exact on growing text.** Pushing an extension of the last text either stops at
the earliest occurrence of a stop, having emitted exactly the text before it, or continues with no
stop in the text. -/
theorem push_growing {filter : TextOutputFilter} {decoded longer : Str}
    (hholds : filter.Holds decoded) (hgrow : decoded <+: longer) :
    (∃ text filter', filter.push longer = some (.ok (.stop text), filter') ∧
      filter'.emitted = filter.emitted ++ text ∧
      (∃ stop ∈ filter.stops, OccursAfter stop longer (filter.emitted ++ text)) ∧
      ∀ stop ∈ filter.stops, ∀ position, OccursAfter stop longer position →
        byteLen (filter.emitted ++ text) ≤ byteLen position) ∨
    (∃ text filter', filter.push longer = some (.ok (.continue text), filter') ∧
      filter' = { filter with emitted := filter.emitted ++ text } ∧ filter'.Holds longer) := by
  have hemitted : filter.emitted <+: longer := hholds.emitted_prefix.trans hgrow
  unfold push
  rw [if_neg (not_not.mpr hemitted)]
  cases hearliest : filter.earliestStop longer with
  | some stopAt =>
      obtain ⟨stop, hstop, before, rfl, hoccurs, hfirst⟩ := earliestStop_eq_some hearliest
      have hreach : decoded <+: before ++ stop := by
        rcases List.prefix_or_prefix_of_prefix hgrow hoccurs with hreach | hinside
        · exact hreach
        · refine absurd ?_ (hholds.no_stop stop hstop)
          exact exists_occursAfter_iff.mp ⟨before, hinside⟩
      have hle : byteLen filter.emitted ≤ byteLen before :=
        hholds.emitted_le hstop List.prefix_rfl hreach
      have hbefore : before <+: longer := (List.prefix_append _ _).trans hoccurs
      obtain ⟨text, rfl⟩ := prefix_of_byteLen_le hemitted hbefore hle
      refine Or.inl ⟨text, { filter with emitted := filter.emitted ++ text }, ?_, rfl,
        ⟨stop, hstop, hoccurs⟩, hfirst⟩
      simp only [Nat.not_lt.mpr hle, if_false, slice_byteLen hbefore]
      rfl
  | none =>
      obtain ⟨front, part, hsplit, hpartLen, hfrontLen, hpart⟩ :=
        exists_safe_front hholds.stops_ne_nil longer
      have hfront : front <+: longer := ⟨part, hsplit.symm⟩
      have hle : byteLen filter.emitted ≤ byteLen front := by
        rcases hpart with rfl | ⟨-, -, stop, hstop, hstarts⟩
        · rw [List.append_nil] at hsplit
          exact hsplit ▸ byteLen_le_of_starts hemitted
        · exact hholds.emitted_le hstop hstarts (hsplit ▸ hgrow)
      obtain ⟨text, rfl⟩ := prefix_of_byteLen_le hemitted hfront hle
      refine Or.inr ⟨text, { filter with emitted := filter.emitted ++ text }, ?_, rfl, ?_⟩
      · rw [← hfrontLen]
        simp only [Nat.not_lt.mpr hle, isCharBoundary_byteLen hfront, slice_byteLen hfront,
          not_true_eq_false, or_self, if_false]
        rfl
      · refine ⟨hholds.stops_ne_nil, hfront, earliestStop_eq_none.mp hearliest, ?_⟩
        intro pending hpending
        have hheld := byteLen_le_heldBytes hpending
        have hlonger : byteLen longer = byteLen (filter.emitted ++ text) + byteLen part := by
          rw [← byteLen_append, ← hsplit]
        change byteLen (filter.emitted ++ text) + byteLen pending ≤ byteLen longer
        rw [hlonger, hpartLen]
        exact Nat.add_le_add_left hheld _

end TextOutputFilter

end HotBatch
