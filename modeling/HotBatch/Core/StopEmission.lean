import HotBatch.Core.SequenceStates
import HotBatch.Foundation.Stops

/-!
# Which tokens are released

Both engines append every sampled token and take what may be shown, until the sequence is done. What
they take is determined by the tokens alone: a generation ends with the first token that is eos or
completes a stop, or else with the last one that fits; before that the longest end that may still
become a stop is withheld, and at the end exactly the stop or the eos token is.
-/

namespace HotBatch

namespace SamplerConfig

variable {α : Type} (config : SamplerConfig α)

/-- The generated tokens end with eos or with a stop. -/
def StopsAt (generated : List Token) : Prop :=
  generated.getLast? = some config.eosToken ∨
    ∃ stop ∈ config.stopSequences, stop ≠ [] ∧ stop <:+ generated

/-- The generation ends with the last of these tokens, for this reason. -/
def EndsAt (generated : List Token) : FinishReason → Prop
  | .stop => config.StopsAt generated
  | .length => ¬ config.StopsAt generated ∧ config.maxNewTokens ≤ generated.length

/-- A generation that draws these tokens ends after the first ones, and not before. -/
structure FirstEnds (tokens generated : List Token) (reason : FinishReason) : Prop where
  starts : generated <+: tokens
  ends : config.EndsAt generated reason
  first : ∀ shorter, shorter <+: generated → shorter ≠ generated →
    ∀ other, ¬ config.EndsAt shorter other

/-- Everything is shown except the longest stop at the end, or the eos token if there is none. -/
def Trims (generated shown : List Token) : Prop :=
  (∃ stop ∈ config.stopSequences, stop ≠ [] ∧ generated = shown ++ stop ∧
    ∀ other ∈ config.stopSequences, other ≠ [] → other <:+ generated →
      other.length ≤ stop.length) ∨
  (∀ stop ∈ config.stopSequences, stop ≠ [] → ¬ stop <:+ generated) ∧
    generated = shown ++ [config.eosToken]

/-- What is shown of a generation that has ended. -/
def ShownAt (generated shown : List Token) : FinishReason → Prop
  | .stop => config.Trims generated shown
  | .length => shown = generated

variable {config}

theorem not_stopsAt_nil : ¬ config.StopsAt [] := by
  rintro (hlast | ⟨stop, -, hne, hsuffix⟩)
  · cases hlast
  · exact hne (List.suffix_nil.mp hsuffix)

/-- Tokens none of whose beginnings ends with eos or a stop contain neither. -/
theorem clean_of_not_stopsAt {shown : List Token}
    (hclean : ∀ shorter, shorter <+: shown → ¬ config.StopsAt shorter) :
    config.eosToken ∉ shown ∧ ¬ Stops.Meets config.stopSequences shown := by
  constructor
  · intro heos
    obtain ⟨before, after, rfl⟩ := List.append_of_mem heos
    apply hclean (before ++ [config.eosToken])
    · exact ⟨after, by simp⟩
    · exact Or.inl (by simp)
  · intro hmeets
    obtain ⟨shorter, hshorter, hstop⟩ := Stops.meets_iff_exists_suffix.mp hmeets
    exact hclean shorter hshorter (Or.inr hstop)

/-- A stop or eos is at least one token, so that nothing that stops remains after trimming. -/
theorem Trims.starts {generated shown : List Token} (htrims : config.Trims generated shown) :
    shown <+: generated ∧ shown ≠ generated := by
  rcases htrims with ⟨stop, -, hne, rfl, -⟩ | ⟨-, rfl⟩
  · exact ⟨List.prefix_append _ _, by simpa using Ne.symm hne⟩
  · exact ⟨List.prefix_append _ _, by simp⟩

theorem ShownAt.starts {generated shown : List Token} {reason : FinishReason}
    (hshown : config.ShownAt generated shown reason) : shown <+: generated := by
  cases reason with
  | stop => exact (Trims.starts hshown).1
  | length =>
      obtain rfl : shown = generated := hshown
      exact List.prefix_rfl

/-- Nothing that is shown of a generation contains eos or a stop. -/
theorem FirstEnds.clean {tokens generated shown : List Token} {reason : FinishReason}
    (hfirst : config.FirstEnds tokens generated reason)
    (hshown : config.ShownAt generated shown reason) :
    ∀ shorter, shorter <+: shown → ¬ config.StopsAt shorter := by
  intro shorter hshorter hstops
  have hstarts := hshorter.trans hshown.starts
  by_cases heq : shorter = generated
  · subst heq
    cases reason with
    | stop => exact (Trims.starts hshown).2 (hshown.starts.eq_of_length_le hshorter.length_le)
    | length => exact hfirst.ends.1 hstops
  · exact hfirst.first shorter hstarts heq .stop hstops

/-- A generation ends only once. -/
theorem FirstEnds.unique {tokens left right : List Token} {reason other : FinishReason}
    (hleft : config.FirstEnds tokens left reason) (hright : config.FirstEnds tokens right other) :
    left = right ∧ reason = other := by
  have hsame : left = right := by
    by_contra hne
    rcases List.prefix_or_prefix_of_prefix hleft.starts hright.starts with hle | hle
    · exact hright.first left hle hne reason hleft.ends
    · exact hleft.first right hle (Ne.symm hne) other hright.ends
  subst hsame
  refine ⟨rfl, ?_⟩
  have hends := hleft.ends
  have hends' := hright.ends
  cases reason <;> cases other
  · rfl
  · exact absurd hends' hends.1
  · exact absurd hends hends'.1
  · rfl

end SamplerConfig

namespace Sequence

variable {α : Type}

/-- `append_token` and `take_emittable_tokens` for each token until the sequence is done, with all the
tokens that were taken; none where a slice panics. -/
def feed : List Token → Sequence α → Option (List Token × Sequence α)
  | [], seq => some ([], seq)
  | token :: tokens, seq =>
      if seq.isDone then some ([], seq)
      else
        (seq.appendToken token).takeEmittableTokens.bind fun result ↦
          (feed tokens result.2).map fun rest ↦ (result.1 ++ rest.1, rest.2)

/-- A turn of an engine feeds the sampled token. -/
theorem advance_eq_feed [Floats α] (row : LogitRow α) {seq : Sequence α}
    (hdone : seq.isDone = false) :
    seq.advance row =
      feed [(seq.sampler.sample row).1] { seq with sampler := (seq.sampler.sample row).2 } := by
  have hopen : ({ seq with sampler := (seq.sampler.sample row).2 } : Sequence α).isDone = false :=
    hdone
  rw [feed, hopen, if_neg Bool.false_ne_true]
  unfold advance appendSampled
  cases htake : ({ seq with sampler := (seq.sampler.sample row).2 }.appendToken
      (seq.sampler.sample row).1).takeEmittableTokens with
  | none => rfl
  | some result => simp [feed]

theorem feed_of_done {seq : Sequence α} (hdone : seq.isDone = true) (tokens : List Token) :
    seq.feed tokens = some ([], seq) := by
  cases tokens with
  | nil => rfl
  | cons token tokens => rw [feed, if_pos hdone]

/-- More tokens only add to what is taken. -/
theorem feed_append (first second : List Token) (seq : Sequence α) :
    seq.feed (first ++ second) = (seq.feed first).bind fun result ↦
      (result.2.feed second).map fun rest ↦ (result.1 ++ rest.1, rest.2) := by
  induction first generalizing seq with
  | nil => simp [feed]
  | cons token first ih =>
      cases hdone : seq.isDone with
      | true =>
          rw [feed_of_done hdone, feed_of_done hdone]
          simp [feed_of_done hdone]
      | false =>
          rw [List.cons_append, feed, feed, hdone, if_neg Bool.false_ne_true,
            if_neg Bool.false_ne_true]
          cases (seq.appendToken token).takeEmittableTokens with
          | none => rfl
          | some result =>
              rw [Option.bind_some, Option.bind_some, ih]
              cases result.2.feed first with
              | none => rfl
              | some middle => simp [Function.comp_def]

/-! ## One token -/

section Token

variable {seq : Sequence α} {token : Token}

theorem matchedStopLen_isSome_iff :
    seq.matchedStopLen.isSome = true ↔
      ∃ stop ∈ seq.sampler.stopSequences, stop ≠ [] ∧ stop <:+ seq.generatedTokens := by
  constructor
  · intro hsome
    obtain ⟨matched, hmatched⟩ := Option.isSome_iff_exists.mp hsome
    obtain ⟨stop, hstop, hne, -, hsuffix⟩ := exists_of_matchedStopLen hmatched
    exact ⟨stop, hstop, hne, hsuffix⟩
  · rintro ⟨stop, hstop, hne, hsuffix⟩
    rw [← Option.ne_none_iff_isSome]
    intro hnone
    have hmem : stop.length ∈ (seq.sampler.stopSequences.filter fun stop ↦
        !stop.isEmpty && decide (stop.length ≤ seq.generatedTokens.length) &&
          seq.generatedTokens.drop (seq.generatedTokens.length - stop.length) == stop).map
        List.length := by
      apply List.mem_map_of_mem
      rw [List.mem_filter]
      refine ⟨hstop, ?_⟩
      have hdrop := List.suffix_iff_eq_drop.mp hsuffix
      simp [hne, hsuffix.length_le, ← hdrop]
    rw [List.max?_eq_none_iff.mp hnone] at hmem
    cases hmem

/-- The matched length is that of the longest stop. -/
theorem length_le_of_matchedStopLen {matched : ℕ} (hmatched : seq.matchedStopLen = some matched)
    {stop : List Token} (hstop : stop ∈ seq.sampler.stopSequences) (hne : stop ≠ [])
    (hsuffix : stop <:+ seq.generatedTokens) : stop.length ≤ matched := by
  have hdrop := List.suffix_iff_eq_drop.mp hsuffix
  refine (List.max?_eq_some_iff.mp hmatched).2 _ (List.mem_map_of_mem ?_)
  rw [List.mem_filter]
  refine ⟨hstop, ?_⟩
  simp [hne, hsuffix.length_le, ← hdrop]

theorem stops_iff :
    token = seq.sampler.eosToken ∨ (seq.push token).matchedStopLen.isSome = true ↔
      seq.sampler.config.StopsAt (seq.generatedTokens ++ [token]) := by
  rw [matchedStopLen_isSome_iff]
  unfold SamplerConfig.StopsAt
  rw [List.getLast?_concat, Option.some_inj]
  rfl

theorem ends_iff : seq.Ends token ↔ ∃ reason,
    seq.sampler.config.EndsAt (seq.generatedTokens ++ [token]) reason := by
  have hlength : (seq.generatedTokens ++ [token]).length = seq.generatedTokens.length + 1 :=
    List.length_append
  constructor
  · intro hends
    by_cases hstop : seq.sampler.config.StopsAt (seq.generatedTokens ++ [token])
    · exact ⟨.stop, hstop⟩
    · rcases hends with hends | hends
      · exact absurd (stops_iff.mp hends) hstop
      · exact ⟨.length, hstop, by rwa [hlength]⟩
  · rintro ⟨reason, hends⟩
    cases reason with
    | stop => exact Or.inl (stops_iff.mpr hends)
    | length =>
        refine Or.inr ?_
        rw [← hlength]
        exact hends.2

end Token

/-! ## A whole generation -/

/-- A sequence that has been fed `seen` and goes on. -/
structure Open (config : SamplerConfig α) (seen : List Token) (seq : Sequence α) : Prop where
  config_eq : seq.sampler.config = config
  generated_eq : seq.generatedTokens = seen
  not_done : seq.isDone = false
  reason_none : seq.finishReason = none
  emitted_eq : seq.emittedTokens = seq.safeEnd
  not_ended : ∀ shorter, shorter <+: seen → ∀ reason, ¬ config.EndsAt shorter reason

/-- What a sequence has become by the end of the tokens. -/
structure Fed (config : SamplerConfig α) (tokens shown : List Token) (seq : Sequence α) : Prop where
  starts : seq.generatedTokens <+: tokens
  ended : ∀ generated reason, config.FirstEnds tokens generated reason →
    seq.state = .finished ∧ seq.finishReason = some reason ∧ seq.generatedTokens = generated ∧
      config.ShownAt generated shown reason
  clean : ∀ shorter, shorter <+: shown → ¬ config.StopsAt shorter
  goesOn : (¬ ∃ generated reason, config.FirstEnds tokens generated reason) →
    seq.isDone = false ∧ seq.finishReason = none ∧ seq.generatedTokens = tokens ∧
      Stops.Withholds config.stopSequences tokens shown

namespace Open

variable {config : SamplerConfig α} {seen : List Token} {seq : Sequence α}

theorem safeEnd_eq (hopen : Open config seen seq) :
    seq.safeEnd = seen.length - seq.pendingStopPrefixLen := by
  unfold safeEnd
  rw [hopen.reason_none, hopen.generated_eq]

/-- Nothing has ended a generation that is still open. -/
theorem not_firstEnds (hopen : Open config seen seq) :
    ¬ ∃ generated reason, config.FirstEnds seen generated reason := by
  rintro ⟨generated, reason, hfirst⟩
  exact hopen.not_ended generated hfirst.starts reason hfirst.ends

/-- The longest end that is a beginning of a stop has not been taken, and everything else has. -/
theorem withholds (hopen : Open config seen seq) :
    Stops.Withholds config.stopSequences seen seq.takenTokens := by
  have hpending := seq.pendingStopPrefixLen_le
  rw [hopen.generated_eq] at hpending
  have htaken : seq.takenTokens = seen.take (seen.length - seq.pendingStopPrefixLen) := by
    unfold takenTokens
    rw [hopen.emitted_eq, hopen.safeEnd_eq, hopen.generated_eq]
  have hheld : (seen.drop (seen.length - seq.pendingStopPrefixLen)).length =
      seq.pendingStopPrefixLen := by
    rw [List.length_drop]
    omega
  refine ⟨seen.drop (seen.length - seq.pendingStopPrefixLen), ?_, ?_, ?_⟩
  · rw [htaken, List.take_append_drop]
  · rcases Nat.eq_zero_or_pos seq.pendingStopPrefixLen with hzero | hpos
    · exact Or.inl (List.eq_nil_of_length_eq_zero (hheld.trans hzero))
    · obtain ⟨stop, hstop, hlen, hsuffix⟩ := seq.exists_pendingStop hpos
      rw [hopen.generated_eq] at hsuffix
      have hstopPart : seen.drop (seen.length - seq.pendingStopPrefixLen) =
          stop.take seq.pendingStopPrefixLen := by
        rw [List.suffix_iff_eq_drop, List.length_take, Nat.min_eq_left hlen] at hsuffix
        exact hsuffix.symm
      refine Or.inr ⟨?_, stop, ?_, ?_, ?_⟩
      · intro hnil
        rw [hnil] at hheld
        exact absurd hheld.symm hpos.ne'
      · rw [← hopen.config_eq]
        exact hstop
      · rw [hstopPart]
        exact List.take_prefix _ _
      · -- A whole stop at the end would have ended the generation.
        intro hwhole
        apply hopen.not_ended seen List.prefix_rfl .stop
        refine Or.inr ⟨stop, ?_, ?_, ?_⟩
        · rw [← hopen.config_eq]
          exact hstop
        · rintro rfl
          exact absurd (hlen.trans_lt hpos) (lt_irrefl _)
        · rw [← hwhole]
          exact List.drop_suffix _ _
  · rintro part ⟨-, stop, hstop, hstarts, -⟩ hsuffix
    apply List.suffix_of_suffix_length_le hsuffix (List.drop_suffix _ _)
    rw [hheld]
    rw [← hopen.config_eq] at hstop
    apply seq.le_pendingStopPrefixLen hstop hstarts.length_le
    rw [← List.prefix_iff_eq_take.mp hstarts, hopen.generated_eq]
    exact hsuffix

/-- Where the next token does not end the generation, it stays open. -/
theorem extend (hopen : Open config seen seq) {token : Token} (hends : ¬ seq.Ends token) :
    ∃ taken stepped, (seq.appendToken token).takeEmittableTokens = some (taken, stepped) ∧
      Open config (seen ++ [token]) stepped := by
  have hpush := appendToken_of_not_ends hopen.reason_none hends
  have hsafe := safeEnd_le_appendToken token seq
  rw [hpush] at hsafe ⊢
  refine ⟨_, _, takeEmittableTokens_eq_some.mpr ⟨?_, rfl, rfl⟩, ?_⟩
  · exact hopen.emitted_eq.le.trans hsafe
  · refine ⟨hopen.config_eq, ?_, hopen.not_done, hopen.reason_none, rfl, ?_⟩
    · change seq.generatedTokens ++ [token] = _
      rw [hopen.generated_eq]
    · intro shorter hshorter reason hends'
      rcases List.prefix_concat_iff.mp hshorter with heq | hold
      · apply hends
        rw [ends_iff, hopen.config_eq, hopen.generated_eq]
        exact ⟨reason, heq ▸ hends'⟩
      · exact hopen.not_ended shorter hold reason hends'

end Open

/-- What `append_token` does at eos or a stop. -/
theorem appendToken_of_stops {seq : Sequence α} {token : Token} (hreason : seq.finishReason = none)
    (hstops : seq.sampler.config.StopsAt (seq.generatedTokens ++ [token])) :
    seq.appendToken token = { seq.push token with
      terminalTrimTokens := (seq.push token).matchedStopLen.getD 1
      state := .finished
      finishReason := some .stop } := by
  have hnone : (seq.push token).finishReason.isNone = true := by
    rw [push_finishReason, hreason]
    rfl
  unfold appendToken
  dsimp only
  rw [if_pos hnone]
  exact if_pos (stops_iff.mpr hstops)

/-- What it does at the limit. -/
theorem appendToken_of_length {seq : Sequence α} {token : Token} (hreason : seq.finishReason = none)
    (hstops : ¬ seq.sampler.config.StopsAt (seq.generatedTokens ++ [token]))
    (hlength : seq.sampler.maxNewTokens ≤ (seq.push token).generatedTokens.length) :
    seq.appendToken token =
      { seq.push token with state := .finished, finishReason := some .length } := by
  have hnone : (seq.push token).finishReason.isNone = true := by
    rw [push_finishReason, hreason]
    rfl
  unfold appendToken
  dsimp only
  rw [if_pos hnone]
  exact (if_neg (stops_iff.not.mpr hstops)).trans (if_pos hlength)

/-- At eos or a stop, the longest stop is trimmed, or eos. -/
theorem trims_appendToken {seq : Sequence α} {token : Token} (hreason : seq.finishReason = none)
    (hstops : seq.sampler.config.StopsAt (seq.generatedTokens ++ [token])) :
    seq.sampler.config.Trims (seq.generatedTokens ++ [token])
      ((seq.generatedTokens ++ [token]).take (seq.appendToken token).safeEnd) := by
  have hsafe : (seq.appendToken token).safeEnd =
      (seq.generatedTokens ++ [token]).length - (seq.push token).matchedStopLen.getD 1 := by
    rw [appendToken_of_stops hreason hstops]
    rfl
  rw [hsafe]
  cases hmatched : (seq.push token).matchedStopLen with
  | some matched =>
      obtain ⟨stop, hstop, hne, hlen, hsuffix⟩ := exists_of_matchedStopLen hmatched
      refine Or.inl ⟨stop, hstop, hne, ?_, ?_⟩
      · have hdrop : (seq.generatedTokens ++ [token]).drop
            ((seq.generatedTokens ++ [token]).length - stop.length) = stop :=
          (List.suffix_iff_eq_drop.mp hsuffix).symm
        rw [Option.getD_some, ← hlen]
        conv_lhs => rw [← List.take_append_drop
          ((seq.generatedTokens ++ [token]).length - stop.length) (seq.generatedTokens ++ [token])]
        rw [hdrop]
      · intro other hother hotherNe hotherSuffix
        rw [hlen]
        exact length_le_of_matchedStopLen hmatched hother hotherNe hotherSuffix
  | none =>
      have hnoStop : ∀ stop ∈ seq.sampler.stopSequences, stop ≠ [] →
          ¬ stop <:+ seq.generatedTokens ++ [token] := by
        intro stop hstop hne hsuffix
        have hsome : (seq.push token).matchedStopLen.isSome = true :=
          matchedStopLen_isSome_iff.mpr ⟨stop, hstop, hne, hsuffix⟩
        rw [hmatched] at hsome
        cases hsome
      refine Or.inr ⟨hnoStop, ?_⟩
      rcases hstops with hlast | ⟨stop, hstop, hne, hsuffix⟩
      · rw [List.getLast?_concat, Option.some_inj] at hlast
        rw [hlast]
        simp
      · exact absurd hsuffix (hnoStop stop hstop hne)

namespace Open

variable {config : SamplerConfig α} {seen : List Token} {seq : Sequence α}

/-- Where the next token ends the generation, it does so for the reason that the tokens give, and what
is then shown is determined by it. -/
theorem finish (hopen : Open config seen seq) {token : Token} (hends : seq.Ends token) :
    ∃ taken stepped reason,
      (seq.appendToken token).takeEmittableTokens = some (taken, stepped) ∧
      config.EndsAt (seen ++ [token]) reason ∧ stepped.state = .finished ∧
      stepped.finishReason = some reason ∧ stepped.generatedTokens = seen ++ [token] ∧
      config.ShownAt (seen ++ [token]) stepped.takenTokens reason := by
  have hsafe := safeEnd_le_appendToken token seq
  obtain ⟨-, -, -, -, -, hemitted, -⟩ := appendToken_frame token seq
  have hgenerated : (seq.appendToken token).generatedTokens = seen ++ [token] := by
    rw [appendToken_generatedTokens, hopen.generated_eq]
  have htake : (seq.appendToken token).takeEmittableTokens = some
      (((seq.appendToken token).generatedTokens.take (seq.appendToken token).safeEnd).drop
        (seq.appendToken token).emittedTokens,
        { seq.appendToken token with emittedTokens := (seq.appendToken token).safeEnd }) := by
    refine takeEmittableTokens_eq_some.mpr ⟨?_, rfl, rfl⟩
    rw [hemitted]
    exact hopen.emitted_eq.le.trans hsafe
  by_cases hstops : seq.sampler.config.StopsAt (seq.generatedTokens ++ [token])
  · have htrims := trims_appendToken hopen.reason_none hstops
    have happend := appendToken_of_stops hopen.reason_none hstops
    rw [hopen.config_eq, hopen.generated_eq] at hstops htrims
    refine ⟨_, _, .stop, htake, hstops, ?_, ?_, hgenerated, ?_⟩
    · change (seq.appendToken token).state = _
      rw [happend]
    · change (seq.appendToken token).finishReason = _
      rw [happend]
    · change config.Trims _ (List.take _ (seq.appendToken token).generatedTokens)
      rw [hgenerated]
      exact htrims
  · have hlength : seq.sampler.maxNewTokens ≤ (seq.push token).generatedTokens.length := by
      rw [push_length]
      rcases hends with hends | hends
      · exact absurd (stops_iff.mp hends) hstops
      · exact hends
    have happend := appendToken_of_length hopen.reason_none hstops hlength
    rw [hopen.config_eq, hopen.generated_eq] at hstops
    refine ⟨_, _, .length, htake, ⟨hstops, ?_⟩, ?_, ?_, hgenerated, ?_⟩
    · rw [← hgenerated, appendToken_generatedTokens, ← hopen.config_eq]
      exact hlength
    · change (seq.appendToken token).state = _
      rw [happend]
    · change (seq.appendToken token).finishReason = _
      rw [happend]
    · change List.take (seq.appendToken token).safeEnd (seq.appendToken token).generatedTokens = _
      have hall : (seq.appendToken token).safeEnd =
          (seq.appendToken token).generatedTokens.length := by
        rw [happend]
        rfl
      rw [hall, List.take_length, hgenerated]

/-- What was taken before stays taken. -/
theorem takenTokens_step (hopen : Open config seen seq) {token : Token} {taken : List Token}
    {stepped : Sequence α}
    (htake : (seq.appendToken token).takeEmittableTokens = some (taken, stepped)) :
    stepped.takenTokens = seq.takenTokens ++ taken := by
  obtain ⟨-, -, -, -, -, hemitted, -⟩ := appendToken_frame token seq
  have hle : seq.emittedTokens ≤ seq.generatedTokens.length := by
    rw [hopen.emitted_eq]
    exact seq.safeEnd_le
  rw [takenTokens_takeEmittableTokens htake]
  unfold takenTokens
  rw [hemitted, appendToken_generatedTokens, List.take_append_of_le_length hle]

/-- The first tokens after which the generation ends. -/
theorem firstEnds (hopen : Open config seen seq) {token : Token} {reason : FinishReason}
    (hends : config.EndsAt (seen ++ [token]) reason) (rest : List Token) :
    config.FirstEnds (seen ++ token :: rest) (seen ++ [token]) reason where
  starts := ⟨rest, by simp⟩
  ends := hends
  first := by
    intro shorter hshorter hne other
    rcases List.prefix_concat_iff.mp hshorter with heq | hold
    · exact absurd heq hne
    · exact hopen.not_ended shorter hold other

/-- **What is taken is determined by the tokens.** -/
theorem feed (hopen : Open config seen seq) (rest : List Token) :
    ∃ taken ended, seq.feed rest = some (taken, ended) ∧
      ended.takenTokens = seq.takenTokens ++ taken ∧
      Fed config (seen ++ rest) ended.takenTokens ended := by
  induction rest generalizing seen seq with
  | nil =>
      refine ⟨[], seq, rfl, (List.append_nil _).symm, ?_⟩
      rw [List.append_nil]
      refine ⟨hopen.generated_eq ▸ List.prefix_rfl, ?_, ?_, fun _ ↦ ?_⟩
      · exact fun generated reason hfirst ↦ absurd ⟨generated, reason, hfirst⟩ hopen.not_firstEnds
      · intro shorter hshorter
        obtain ⟨held, hseen, -⟩ := hopen.withholds
        have hstarts : shorter <+: seen := hshorter.trans ⟨held, hseen.symm⟩
        exact hopen.not_ended shorter hstarts .stop
      · exact ⟨hopen.not_done, hopen.reason_none, hopen.generated_eq, hopen.withholds⟩
  | cons token rest ih =>
      have hfeed : seq.feed (token :: rest) =
          (seq.appendToken token).takeEmittableTokens.bind fun result ↦
            (Sequence.feed rest result.2).map fun more ↦ (result.1 ++ more.1, more.2) := by
        rw [Sequence.feed, hopen.not_done, if_neg Bool.false_ne_true]
      by_cases hends : seq.Ends token
      · obtain ⟨taken, stepped, reason, htake, hendsAt, hstate, hreason, hgenerated, hshown⟩ :=
          hopen.finish hends
        have hfirst := hopen.firstEnds hendsAt rest
        have hdone : stepped.isDone = true := by
          unfold isDone
          rw [hstate]
        refine ⟨taken, stepped, ?_, hopen.takenTokens_step htake, ?_, ?_, hfirst.clean hshown, ?_⟩
        · rw [hfeed, htake, Option.bind_some, feed_of_done hdone]
          simp
        · rw [hgenerated]
          exact hfirst.starts
        · intro generated other hother
          obtain ⟨rfl, rfl⟩ := hfirst.unique hother
          exact ⟨hstate, hreason, hgenerated, hshown⟩
        · exact fun hnone ↦ absurd ⟨_, _, hfirst⟩ hnone
      · obtain ⟨taken, stepped, htake, hstepped⟩ := hopen.extend hends
        obtain ⟨more, ended, hmore, htaken, hfed⟩ := ih hstepped
        rw [List.append_assoc, List.singleton_append] at hfed
        refine ⟨taken ++ more, ended, ?_, ?_, hfed⟩
        · rw [hfeed, htake, Option.bind_some, hmore]
          rfl
        · rw [htaken, hopen.takenTokens_step htake, List.append_assoc]

end Open

/-- A fresh sequence is open: without a token nothing ends. -/
theorem open_ofRequest {req : GenerationRequest α} (hmaxNew : 1 ≤ req.maxNewTokens)
    (handle : KvHandle) : Open req.samplerConfig [] (ofRequest req handle).markRunning where
  config_eq := rfl
  generated_eq := rfl
  not_done := rfl
  reason_none := rfl
  emitted_eq := by
    have hle := (ofRequest req handle).markRunning.safeEnd_le
    exact (Nat.le_zero.mp hle).symm
  not_ended := by
    intro shorter hshorter reason hends
    rw [List.prefix_nil.mp hshorter] at hends
    cases reason with
    | stop => exact SamplerConfig.not_stopsAt_nil hends
    | length => exact absurd hends.2 (Nat.not_le.mpr hmaxNew)

/-- **Token emission is safe for stops.** For every request that may generate something and every
stream of tokens, appending and taking succeeds for every token until the sequence is done. What has
been taken is a beginning of the generated tokens that only grows and contains neither eos nor a
non-empty stop. The sequence finishes at the first tokens that end with eos or a stop, or else are as
many as allowed; it then shows all of them, or all but the longest stop at their end, or all but eos.
Before that it has withheld exactly the longest end that is a proper beginning of a stop. -/
theorem emission_stop_safe (req : GenerationRequest α) (hmaxNew : 1 ≤ req.maxNewTokens)
    (handle : KvHandle) (tokens : List Token) :
    ∃ taken seq, (ofRequest req handle).markRunning.feed tokens = some (taken, seq) ∧
      taken <+: seq.generatedTokens ∧ seq.generatedTokens <+: tokens ∧
      (∀ fewer, fewer <+: tokens → ∃ earlier before,
        (ofRequest req handle).markRunning.feed fewer = some (earlier, before) ∧
          earlier <+: taken) ∧
      req.samplerConfig.eosToken ∉ taken ∧
      ¬ Stops.Meets req.samplerConfig.stopSequences taken ∧
      (∀ generated reason, req.samplerConfig.FirstEnds tokens generated reason →
        seq.state = .finished ∧ seq.finishReason = some reason ∧ seq.generatedTokens = generated ∧
          req.samplerConfig.ShownAt generated taken reason) ∧
      ((¬ ∃ generated reason, req.samplerConfig.FirstEnds tokens generated reason) →
        seq.isDone = false ∧ seq.finishReason = none ∧ seq.generatedTokens = tokens ∧
          Stops.Withholds req.samplerConfig.stopSequences tokens taken) := by
  obtain ⟨taken, seq, hfeed, htaken, hfed⟩ := (open_ofRequest hmaxNew handle).feed tokens
  have hsame : seq.takenTokens = taken := htaken
  rw [hsame, List.nil_append] at hfed
  obtain ⟨heos, hstops⟩ := SamplerConfig.clean_of_not_stopsAt hfed.clean
  refine ⟨taken, seq, hfeed, ?_, hfed.starts, ?_, heos, hstops, hfed.ended, hfed.goesOn⟩
  · rw [← hsame]
    exact List.take_prefix _ _
  · rintro fewer ⟨rest, rfl⟩
    obtain ⟨earlier, before, hearlier, -, -⟩ := (open_ofRequest hmaxNew handle).feed fewer
    refine ⟨earlier, before, hearlier, ?_⟩
    rw [feed_append, hearlier, Option.bind_some] at hfeed
    obtain ⟨more, -, hmore⟩ := Option.map_eq_some_iff.mp hfeed
    exact ⟨more.1, congrArg Prod.fst hmore⟩

/-- A request with two stops, one of which ends the other. -/
def stopRequest : GenerationRequest ℚ :=
  ⟨"a", [1], { tinyConfig with stopSequences := [[5], [4, 5]], maxNewTokens := 9 }, 0, 0, 0⟩

theorem emission_stop_safe_stopRequest :
    ∃ seq, (ofRequest stopRequest ⟨0, 10, 1⟩).markRunning.feed [4, 3, 4, 5, 6] =
        some ([4, 3], seq) ∧
      seq.generatedTokens <+: [4, 3, 4, 5, 6] ∧
      ¬ Stops.Meets stopRequest.samplerConfig.stopSequences [4, 3] := by
  obtain ⟨taken, seq, hfeed, -, hstarts, -, -, hclean, -, -⟩ :=
    emission_stop_safe stopRequest (by decide +kernel) ⟨0, 10, 1⟩ [4, 3, 4, 5, 6]
  have htaken : ((ofRequest stopRequest ⟨0, 10, 1⟩).markRunning.feed [4, 3, 4, 5, 6]).map
      Prod.fst = some [4, 3] := by decide +kernel
  rw [hfeed] at htaken
  obtain rfl : taken = [4, 3] := Option.some.inj htaken
  exact ⟨seq, hfeed, hstarts, hclean⟩

end Sequence

end HotBatch
