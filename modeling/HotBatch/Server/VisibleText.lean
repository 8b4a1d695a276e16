import HotBatch.Server.Responses

/-!
# Stop texts in what a client sees

Both response paths run the same filter over the decoding of the tokens received so far, without
its trailing replacement characters, and flush the untrimmed decoding when the generation finishes.
With a tokenizer that decodes the concatenated bytes of its tokens, the trimmed decodings only grow,
so the filter is exact on them. What it never looks at is the run of replacement characters at the
very end, which the flush releases unchecked.

`stopSafe_iff` is the exact condition under which no stop text becomes visible.
-/

namespace HotBatch

open TextOutputFilter

/-- A tokenizer that decodes the concatenation of its tokens' bytes, lossily. -/
def lossyText (tokenBytes : Token → List UInt8) (tokens : List Token) : Str :=
  Utf8.fromUtf8Lossy (tokens.flatMap tokenBytes)

def lossyDecode (tokenBytes : Token → List UInt8) : Decode := fun tokens ↦
  .ok (lossyText tokenBytes tokens)

/-- The byte of a token of `FallbackTokenizer`: ids `1 … 256` stand for one byte each, other ids for
none. -/
def fallbackBytes (token : Token) : List UInt8 :=
  if token = 0 then [] else
    let value := token - 1
    if value ≤ 255 then [value.toUInt8] else []

/-- `FallbackTokenizer::decode`. -/
def fallbackDecode : Decode := lossyDecode fallbackBytes

/-- What the filter is fed after the given tokens. -/
def stableText (tokenBytes : Token → List UInt8) (tokens : List Token) : Str :=
  Utf8.trimReplacement (lossyText tokenBytes tokens)

theorem stableText_append (tokenBytes : Token → List UInt8) (tokens more : List Token) :
    stableText tokenBytes tokens <+: stableText tokenBytes (tokens ++ more) := by
  unfold stableText lossyText
  rw [List.flatMap_append]
  exact (Utf8.trimmed_prefix_append _ _).2

theorem stableText_prefix_lossyText (tokenBytes : Token → List UInt8) (tokens : List Token) :
    stableText tokenBytes tokens <+: lossyText tokenBytes tokens :=
  Utf8.trimReplacement_starts _

def HasStop (stops : List Str) (text : Str) : Prop := ∃ stop ∈ stops, stop <:+: text

instance (stops : List Str) (text : Str) : Decidable (HasStop stops text) :=
  inferInstanceAs (Decidable (∃ stop ∈ stops, stop <:+: text))

theorem HasStop.mono {stops : List Str} {text longer : Str} (hstop : HasStop stops text)
    (hwithin : text <:+: longer) : HasStop stops longer := by
  obtain ⟨stop, hmem, hstop⟩ := hstop
  exact ⟨stop, hmem, hstop.trans hwithin⟩

/-- The text before the earliest stop contains no stop. -/
theorem not_hasStop_of_first {stops : List Str} {text before : Str}
    (hstops : ∀ stop ∈ stops, stop ≠ []) (hstarts : before <+: text)
    (hfirst : ∀ stop ∈ stops, ∀ position, Str.OccursAfter stop text position →
      Str.byteLen before ≤ Str.byteLen position) : ¬ HasStop stops before := by
  rintro ⟨stop, hmem, position, after, hsplit⟩
  have hoccurs : Str.OccursAfter stop text position := by
    refine List.IsPrefix.trans ?_ hstarts
    exact ⟨after, hsplit⟩
  have hle := hfirst stop hmem position hoccurs
  rw [← hsplit, Str.byteLen_append, Str.byteLen_append] at hle
  have hzero : Str.byteLen stop = 0 := by omega
  exact hstops stop hmem (Str.byteLen_eq_zero.mp hzero)

/-- The items of a generation that finishes. -/
def finishedItems (tokens : List Token) (reason : FinishReason) : List StreamItem :=
  tokens.map .token ++ [.finished reason]

/-- Collecting a finished generation: either some stop occurs in the stable text and the collected
text ends before it, or the whole decoding is collected. -/
theorem collectFrom_finishedItems (tokenBytes : Token → List UInt8) (reason : FinishReason)
    (rest seen : List Token) (output : TextOutputFilter)
    (hholds : output.Holds (stableText tokenBytes seen)) :
    (HasStop output.stops (stableText tokenBytes (seen ++ rest)) ∧
      ∃ text count, collectFrom (lossyDecode tokenBytes) seen output.emitted output
          (finishedItems rest reason) = some (.ok ⟨text, count, .stop⟩, true) ∧
        ¬ HasStop output.stops text) ∨
    (¬ HasStop output.stops (stableText tokenBytes (seen ++ rest)) ∧
      collectFrom (lossyDecode tokenBytes) seen output.emitted output (finishedItems rest reason) =
        some (.ok ⟨lossyText tokenBytes (seen ++ rest), (seen ++ rest).length, reason⟩, false)) := by
  induction rest generalizing seen output with
  | nil =>
      have hstarts : output.emitted <+: lossyText tokenBytes seen :=
        hholds.emitted_prefix.trans (stableText_prefix_lossyText tokenBytes seen)
      rw [List.append_nil]
      refine Or.inr ⟨?_, ?_⟩
      · rintro ⟨stop, hmem, hstop⟩
        exact hholds.no_stop stop hmem hstop
      · obtain ⟨remaining, hremaining⟩ := hstarts
        simp [finishedItems, collectFrom, lossyDecode, finish, ← hremaining]
  | cons token rest ih =>
      have hgrow := stableText_append tokenBytes seen [token]
      have hwhole : stableText tokenBytes (seen ++ [token]) <+:
          stableText tokenBytes (seen ++ token :: rest) := by
        have hmore := stableText_append tokenBytes (seen ++ [token]) rest
        rwa [List.append_assoc, List.singleton_append] at hmore
      have hitems : finishedItems (token :: rest) reason =
          .token token :: finishedItems rest reason := rfl
      have hfed : Utf8.trimReplacement (lossyText tokenBytes (seen ++ [token])) =
          stableText tokenBytes (seen ++ [token]) := rfl
      rcases push_growing hholds hgrow with
        ⟨text, next, hpush, hemitted, ⟨stop, hmem, hoccurs⟩, hfirst⟩ | ⟨text, next, hpush, rfl, hnext⟩
      · refine Or.inl ⟨?_, output.emitted ++ text, (seen ++ [token]).length, ?_, ?_⟩
        · refine HasStop.mono ⟨stop, hmem, ?_⟩ hwhole.isInfix
          exact Str.exists_occursAfter_iff.mp ⟨_, hoccurs⟩
        · simp only [hitems, collectFrom, lossyDecode, hfed, hpush]
        · exact not_hasStop_of_first hholds.stops_ne_nil
            ((List.prefix_append _ _).trans hoccurs) hfirst
      · have hrest := ih (seen ++ [token]) _ hnext
        rw [List.append_assoc, List.singleton_append] at hrest
        simp only [hitems, collectFrom, lossyDecode, hfed, hpush]
        exact hrest

/-- No stop text is visible to the client, on either response path, and a stop in the decoding of
the tokens that were received is reported as the finish reason. -/
def StopSafe (tokenBytes : Token → List UInt8) (id model : String) (kind : StreamKind)
    (stops : List Str) (tokens : List Token) (reason : FinishReason) : Prop :=
  ∃ generation cancelled effects,
    collectGeneration (lossyDecode tokenBytes) stops (finishedItems tokens reason) =
      some (.ok generation, cancelled) ∧
    openaiStream (lossyDecode tokenBytes) id model kind stops (finishedItems tokens reason) =
      some effects ∧
    ¬ HasStop stops generation.text ∧ ¬ HasStop stops (streamedText effects) ∧
    (HasStop stops (lossyText tokenBytes (tokens.take generation.completionTokens)) →
      generation.reason = .stop ∧ EndsDone "stop" (eventsOf effects))

/-- **When stop texts stay invisible.** For non-empty stops the client never sees a stop, and a stop
in the decoded text is always reported, exactly when a decoding that contains a stop still contains
one without its trailing replacement characters. -/
theorem stopSafe_iff (tokenBytes : Token → List UInt8) (id model : String) (kind : StreamKind)
    (stops : List Str) (hstops : ∀ stop ∈ stops, stop ≠ []) (tokens : List Token)
    (reason : FinishReason) :
    StopSafe tokenBytes id model kind stops tokens reason ↔
      (HasStop stops (lossyText tokenBytes tokens) →
        HasStop stops (stableText tokenBytes tokens)) := by
  have hfilter : (TextOutputFilter.new stops).stops = stops := by
    apply List.filter_eq_self.mpr
    intro stop hmem
    simpa using hstops stop hmem
  have hstart : stableText tokenBytes [] = [] := rfl
  have hcollect := collectFrom_finishedItems tokenBytes reason tokens [] (.new stops)
    (hstart ▸ holds_new stops)
  rw [hfilter, List.nil_append] at hcollect
  obtain ⟨outcome, effects, hresult, hstream, hmatches⟩ :=
    collectFrom_matches_streamFrom (lossyDecode tokenBytes) id model kind
      (finishedItems tokens reason) [] [] (.new stops)
  -- On success both paths show the same text and the same reason.
  have hboth : ∀ generation cancelled, outcome = (.ok generation, cancelled) →
      streamedText effects = generation.text ∧
        EndsDone (finishReasonLabel generation.reason) (eventsOf effects) := by
    rintro generation cancelled rfl
    exact ⟨hmatches.2.1.symm, hmatches.1⟩
  rcases hcollect with ⟨hstable, text, count, hcollect, hclean⟩ | ⟨hstable, hcollect⟩
  · obtain rfl := Option.some.inj (hresult.symm.trans hcollect)
    obtain ⟨hstreamed, hdone⟩ := hboth _ _ rfl
    refine ⟨fun _ _ ↦ hstable, fun _ ↦ ?_⟩
    exact ⟨_, _, effects, hresult, hstream, hclean, hstreamed ▸ hclean, fun _ ↦ ⟨rfl, hdone⟩⟩
  · obtain rfl := Option.some.inj (hresult.symm.trans hcollect)
    obtain ⟨hstreamed, hdone⟩ := hboth _ _ rfl
    constructor
    · rintro ⟨generation, cancelled, -, hcollected, -, hclean, -, -⟩ hstop
      have heq := Option.some.inj (hcollected.symm.trans hcollect)
      obtain rfl := Except.ok.inj (congrArg Prod.fst heq)
      exact absurd hstop hclean
    · intro hexact
      have hclean : ¬ HasStop stops (lossyText tokenBytes tokens) := fun hstop ↦
        hstable (hexact hstop)
      refine ⟨_, _, effects, hresult, hstream, hclean, hstreamed ▸ hclean, fun hstop ↦ ?_⟩
      rw [List.take_length] at hstop
      exact absurd hstop hclean

/-- The text `abcd` with two overlapping stops. -/
theorem stopSafe_iff_overlapping :
    StopSafe fallbackBytes "cmpl" "scripted" .chat ["bc".toList, "cd".toList]
      [98, 99, 100, 101] .length := by
  refine (stopSafe_iff fallbackBytes "cmpl" "scripted" .chat _ ?_ _ .length).mpr ?_
  · decide
  · intro _
    decide

/-- A stop that is itself the replacement character is flushed at the natural end: the filter never
sees the trailing replacement characters that the flush releases. -/
theorem replacement_stop_visible :
    ¬ StopSafe fallbackBytes "cmpl" "scripted" .completion [[Utf8.replacement]] [256] .length := by
  rintro ⟨generation, cancelled, -, hcollect, -, hclean, -, -⟩
  have hrun : collectGeneration (lossyDecode fallbackBytes) [[Utf8.replacement]]
      (finishedItems [256] .length) = some (.ok ⟨[Utf8.replacement], 1, .length⟩, false) := by
    rfl
  have heq := Option.some.inj (hcollect.symm.trans hrun)
  obtain rfl := Except.ok.inj (congrArg Prod.fst heq)
  exact hclean (by decide)

end HotBatch
