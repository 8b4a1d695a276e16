import HotBatch.Server.VisibleText

/-!
# Decodings that only grow

The filter of a response path may only be fed texts that extend each other. With a tokenizer that
decodes the concatenated bytes of its tokens, the trimmed decodings do, and the last untrimmed one
extends them all. So whatever the engine sends, neither path ever reports one of the filter's errors.
-/

namespace HotBatch

open TextOutputFilter

/-- What the filter reports when it is fed texts that do not extend each other. -/
def filterErrors : List String :=
  ["incremental token decoding changed already emitted text",
    "a stop sequence appeared in already emitted text",
    "stop-sequence buffering crossed already emitted text"]

/-- The errors of a response whose filter has never failed, and whose tokenizer never does. -/
def EngineError (items : List StreamItem) (error : ApiError) : Prop :=
  error = .unterminated ∨ ∃ message, .error message ∈ items ∧ error = .failed message

theorem EngineError.cons {items : List StreamItem} {error : ApiError}
    (herror : EngineError items error) (item : StreamItem) : EngineError (item :: items) error := by
  refine herror.imp_right ?_
  rintro ⟨message, hmem, rfl⟩
  exact ⟨message, List.mem_cons_of_mem item hmem, rfl⟩

/-- An error of the engine is told apart from those of the filter by its first letter. -/
theorem EngineError.not_filterError {items : List StreamItem} {error : ApiError}
    (herror : EngineError items error) {text : String} (htext : text ∈ filterErrors) :
    error ≠ .generation text := by
  have hengine : error.message.toList.head? = some 'g' := by
    rcases herror with rfl | ⟨message, -, rfl⟩
    · decide
    · have htext : (ApiError.failed message).message = "generation failed: " ++ message := rfl
      rw [htext, String.toList_append]
      rfl
  have hfilter : text.toList.head? ≠ some 'g' := by
    revert htext
    unfold filterErrors
    simp only [List.mem_cons, List.not_mem_nil, or_false]
    rintro (rfl | rfl | rfl) <;> decide
  rintro rfl
  exact hfilter hengine

section Paths

variable (tokenBytes : Token → List UInt8)

/-- The flush of the untrimmed decoding succeeds. -/
theorem finish_lossyText {seen : List Token} {output : TextOutputFilter}
    (hholds : output.Holds (stableText tokenBytes seen)) :
    ∃ remaining after, output.finish (lossyText tokenBytes seen) = (.ok remaining, after) := by
  have hstarts : output.emitted <+: lossyText tokenBytes seen :=
    hholds.emitted_prefix.trans (stableText_prefix_lossyText tokenBytes seen)
  unfold finish
  rw [if_pos hstarts]
  exact ⟨_, _, rfl⟩

/-- One more token: the filter stops, or goes on holding what it has been fed. -/
theorem push_stableText {seen : List Token} {output : TextOutputFilter}
    (hholds : output.Holds (stableText tokenBytes seen)) (token : Token) :
    (∃ text after, output.push (Utf8.trimReplacement (lossyText tokenBytes (seen ++ [token]))) =
        some (.ok (.stop text), after)) ∨
      ∃ text after, output.push (Utf8.trimReplacement (lossyText tokenBytes (seen ++ [token]))) =
          some (.ok (.continue text), after) ∧
        after.Holds (stableText tokenBytes (seen ++ [token])) := by
  rcases push_growing hholds (stableText_append tokenBytes seen [token]) with
    ⟨text, after, hpush, -⟩ | ⟨text, after, hpush, -, hafter⟩
  · exact Or.inl ⟨text, after, hpush⟩
  · exact Or.inr ⟨text, after, hpush, hafter⟩

/-- Collecting never panics and fails for the engine's reasons only. -/
theorem collectFrom_engineError (items : List StreamItem) (seen : List Token) (text : Str)
    (output : TextOutputFilter) (hholds : output.Holds (stableText tokenBytes seen)) :
    ∃ outcome, collectFrom (lossyDecode tokenBytes) seen text output items = some outcome ∧
      ∀ error, outcome.1 = .error error → EngineError items error := by
  induction items generalizing seen text output with
  | nil =>
      refine ⟨_, rfl, fun error herror ↦ ?_⟩
      exact Or.inl (Except.error.inj herror).symm
  | cons item items ih =>
      cases item with
      | error message =>
          refine ⟨_, rfl, fun error herror ↦ ?_⟩
          exact Or.inr ⟨message, List.mem_cons_self, (Except.error.inj herror).symm⟩
      | finished reason =>
          obtain ⟨remaining, after, hfinish⟩ := finish_lossyText tokenBytes hholds
          refine ⟨(.ok ⟨text ++ remaining, seen.length, reason⟩, false), ?_, ?_⟩
          · simp only [collectFrom, lossyDecode, hfinish]
          · intro error herror
            cases herror
      | token token =>
          rcases push_stableText tokenBytes hholds token with
            ⟨fragment, after, hpush⟩ | ⟨fragment, after, hpush, hafter⟩
          · refine ⟨(.ok ⟨text ++ fragment, (seen ++ [token]).length, .stop⟩, true), ?_, ?_⟩
            · simp only [collectFrom, lossyDecode, hpush]
            · intro error herror
              cases herror
          · obtain ⟨outcome, hcollect, herrors⟩ :=
              ih (seen ++ [token]) (text ++ fragment) after hafter
            refine ⟨outcome, ?_, fun error herror ↦ (herrors error herror).cons _⟩
            simp only [collectFrom, lossyDecode, hpush]
            exact hcollect

/-- So does streaming. -/
theorem streamFrom_engineError (id model : String) (kind : StreamKind) (items : List StreamItem)
    (seen : List Token) (output : TextOutputFilter)
    (hholds : output.Holds (stableText tokenBytes seen)) :
    ∃ effects, streamFrom (lossyDecode tokenBytes) id model kind seen output items = some effects ∧
      ∀ error, .yield (.error error) ∈ effects → EngineError items error := by
  induction items generalizing seen output with
  | nil =>
      refine ⟨_, rfl, fun error hmem ↦ ?_⟩
      simp only [List.mem_singleton, StreamEffect.yield.injEq, SseEvent.error.injEq] at hmem
      exact Or.inl hmem
  | cons item items ih =>
      cases item with
      | error message =>
          refine ⟨_, rfl, fun error hmem ↦ ?_⟩
          simp only [List.mem_singleton, StreamEffect.yield.injEq, SseEvent.error.injEq] at hmem
          exact Or.inr ⟨message, List.mem_cons_self, hmem⟩
      | finished reason =>
          obtain ⟨remaining, after, hfinish⟩ := finish_lossyText tokenBytes hholds
          refine ⟨[.yield (.chunk (finishChunk id model kind remaining reason)), .yield .done],
            ?_, fun error hmem ↦ ?_⟩
          · simp only [streamFrom, lossyDecode, hfinish]
          · simp at hmem
      | token token =>
          rcases push_stableText tokenBytes hholds token with
            ⟨fragment, after, hpush⟩ | ⟨fragment, after, hpush, hafter⟩
          · refine ⟨[.cancelResponse, .yield (.chunk (tokenChunk id model kind fragment)),
              .yield (.chunk (stopChunk id model kind)), .yield .done], ?_, fun error hmem ↦ ?_⟩
            · simp only [streamFrom, lossyDecode, hpush]
            · simp at hmem
          · obtain ⟨effects, hstream, herrors⟩ := ih (seen ++ [token]) after hafter
            refine ⟨.yield (.chunk (tokenChunk id model kind fragment)) :: effects, ?_,
              fun error hmem ↦ ?_⟩
            · simp only [streamFrom, lossyDecode, hpush, hstream, Option.map_some]
            · rcases List.mem_cons.mp hmem with heq | hmem
              · cases heq
              · exact (herrors error hmem).cons _

end Paths

/-- **Incremental decoding never retracts text.** For every stream of tokens, the trimmed decoding of
its beginning by `FallbackTokenizer` is a beginning of every later decoding, trimmed or not. So for
every list of stops and whatever the engine sends, neither response path panics or reports an error of
the filter. -/
theorem decoding_never_retracts (stops : List Str) (id model : String) (kind : StreamKind) :
    (∀ tokens more : List Token,
      stableText fallbackBytes tokens <+: stableText fallbackBytes (tokens ++ more) ∧
        stableText fallbackBytes tokens <+: lossyText fallbackBytes (tokens ++ more)) ∧
    ∀ items : List StreamItem,
      (∃ outcome, collectGeneration fallbackDecode stops items = some outcome ∧
        ∀ text ∈ filterErrors, outcome.1 ≠ .error (.generation text)) ∧
      ∃ effects, openaiStream fallbackDecode id model kind stops items = some effects ∧
        ∀ text ∈ filterErrors, .yield (.error (.generation text)) ∉ effects := by
  have hholds : (TextOutputFilter.new stops).Holds (stableText fallbackBytes []) := holds_new stops
  refine ⟨fun tokens more ↦ ?_, fun items ↦ ⟨?_, ?_⟩⟩
  · have hgrows := stableText_append fallbackBytes tokens more
    exact ⟨hgrows, hgrows.trans (stableText_prefix_lossyText _ _)⟩
  · obtain ⟨outcome, hcollect, herrors⟩ :=
      collectFrom_engineError fallbackBytes items [] [] (.new stops) hholds
    refine ⟨outcome, hcollect, fun text htext herror ↦ ?_⟩
    exact (herrors _ herror).not_filterError htext rfl
  · obtain ⟨effects, hstream, herrors⟩ :=
      streamFrom_engineError fallbackBytes id model kind items [] (.new stops) hholds
    refine ⟨effects, hstream, fun text htext hmem ↦ ?_⟩
    exact (herrors _ hmem).not_filterError htext rfl

end HotBatch
