import HotBatch.Foundation.Utf8Encoding
import HotBatch.Server.Startup
import HotBatch.Server.VisibleText

/-!
# The tokenizer of the scripted model

`FallbackTokenizer` makes one token of each byte of a text, and the scripted model speaks its tokens.
A text survives the way through it and through either response path, also when its characters are
cut between tokens: the bytes of a text are UTF-8, and lossy decoding reads them back.
-/

namespace HotBatch

open TextOutputFilter

/-- `FallbackTokenizer::encode`. -/
def fallbackEncode (text : Str) : List Token := (Utf8.encode text).map fun byte ↦ byte.toUInt32 + 1

/-- `TokenizerBundle::load_normalized` for the scripted model. -/
def TokenizerBundle.scripted : TokenizerBundle where
  modelName := "scripted"
  eosToken := 0
  encode := fun text ↦ .ok (fallbackEncode text)

/-- What the scripted model says, whatever it is asked. -/
def ScriptedModel.script : Str :=
  " France, known for Paris, art, science, and careful engineering.".toList

/-- `ScriptedModel::new`. The script is not empty, so that no `eos_token` takes its place. -/
def ScriptedModel.new : ScriptedModel where
  vocabSize := 512
  scriptTokens := fallbackEncode script
  vocab_pos := by decide
  script_ne_nil := by decide

/-! ## One token and its byte -/

section Token

variable (byte : UInt8)

theorem toNat_byteToken : (byte.toUInt32 + 1).toNat = byte.toNat + 1 := by
  have hbyte := byte.toNat_lt
  rw [UInt32.toNat_add, UInt8.toNat_toUInt32]
  exact Nat.mod_eq_of_lt (show byte.toNat + 1 < 2 ^ 32 by omega)

theorem fallbackBytes_byteToken : fallbackBytes (byte.toUInt32 + 1) = [byte] := by
  have hnat := toNat_byteToken byte
  have hpos : byte.toUInt32 + 1 ≠ 0 := by
    intro hzero
    rw [hzero] at hnat
    exact Nat.succ_ne_zero _ hnat.symm
  have hle : byte.toUInt32 ≤ 255 := by
    rw [UInt32.le_iff_toNat_le, UInt8.toNat_toUInt32]
    exact Nat.le_of_lt_succ byte.toNat_lt
  unfold fallbackBytes
  rw [if_neg hpos, UInt32.add_sub_cancel]
  dsimp only
  rw [if_pos hle, UInt8.toUInt8_toUInt32]

end Token

/-! ## A text and its tokens -/

section Text

variable (text : Str)

theorem length_encode : (Utf8.encode text).length = Str.byteLen text := by
  induction text with
  | nil => rfl
  | cons c text ih =>
      rw [Utf8.encode_cons, List.length_append, String.length_utf8EncodeChar, ih, Str.byteLen_cons]

theorem length_fallbackEncode : (fallbackEncode text).length = Str.byteLen text := by
  unfold fallbackEncode
  rw [List.length_map, length_encode]

theorem flatMap_fallbackEncode : (fallbackEncode text).flatMap fallbackBytes = Utf8.encode text := by
  calc (fallbackEncode text).flatMap fallbackBytes
      = (Utf8.encode text).flatMap fun byte ↦ fallbackBytes (byte.toUInt32 + 1) :=
        List.flatMap_map _ _ _
    _ = (Utf8.encode text).flatMap fun byte ↦ [byte] := by simp only [fallbackBytes_byteToken]
    _ = Utf8.encode text := List.flatMap_singleton' _

theorem lossyText_fallbackEncode : lossyText fallbackBytes (fallbackEncode text) = text := by
  unfold lossyText
  rw [flatMap_fallbackEncode, Utf8.fromUtf8Lossy_encode]

theorem toNat_of_mem_fallbackEncode {token : Token} (hmem : token ∈ fallbackEncode text) :
    0 < token.toNat ∧ token.toNat ≤ 256 := by
  obtain ⟨byte, -, rfl⟩ := List.mem_map.mp hmem
  have hbyte := byte.toNat_lt
  rw [toNat_byteToken]
  omega

theorem eosToken_notMem_fallbackEncode :
    TokenizerBundle.scripted.eosToken ∉ fallbackEncode text := by
  intro hmem
  exact absurd (toNat_of_mem_fallbackEncode text hmem).1 (by decide)

/-- Whatever part of the tokens has come, the filter is fed a beginning of the text. -/
theorem stableText_prefix_text {seen : List Token} (hseen : seen <+: fallbackEncode text) :
    stableText fallbackBytes seen <+: text := by
  obtain ⟨rest, hrest⟩ := hseen
  calc stableText fallbackBytes seen
      <+: stableText fallbackBytes (seen ++ rest) := stableText_append fallbackBytes seen rest
    _ <+: lossyText fallbackBytes (seen ++ rest) := stableText_prefix_lossyText fallbackBytes _
    _ = text := by rw [hrest, lossyText_fallbackEncode]

end Text

theorem speaks_scripted {α : Type} :
    TokenizerBundle.scripted.Speaks (.scripted .new : SmallTransformer α) := by
  intro text tokens hencode token htoken
  obtain rfl := Except.ok.inj hencode
  have hbound := (toNat_of_mem_fallbackEncode text htoken).2
  exact hbound.trans_lt (show 256 < 512 by decide)

/-- Without a stop in the text, collecting its tokens gives it back. -/
theorem collect_fallbackEncode (text : Str) {stops : List Str}
    (hstops : ∀ stop ∈ stops, stop ≠ [] → ¬ stop <:+: text) (reason : FinishReason) :
    collectGeneration fallbackDecode stops (finishedItems (fallbackEncode text) reason) =
      some (.ok ⟨text, Str.byteLen text, reason⟩, false) := by
  rcases collectFrom_finishedItems fallbackBytes reason (fallbackEncode text) [] (.new stops)
    (holds_new stops) with ⟨⟨stop, hmem, hoccurs⟩, -⟩ | ⟨-, hcollect⟩
  · obtain ⟨hmem, hnonempty⟩ := List.mem_filter.mp hmem
    have hwithin : stop <:+: text :=
      hoccurs.trans (stableText_prefix_text text (List.prefix_refl _)).isInfix
    exact absurd hwithin (hstops stop hmem (by simpa using hnonempty))
  · rw [List.nil_append, lossyText_fallbackEncode, length_fallbackEncode] at hcollect
    exact hcollect

/-- **A text survives its tokens.** `FallbackTokenizer` decodes the tokens of a text to the text. There
is one for each byte, each is in the scripted model's vocabulary, and none is the end-of-sequence
token. While they come in, what the filter is fed is a beginning of the text at every moment. And if
no stop occurs in the text, then both response paths hand the client exactly the text, with its
bytes as the token count and the engine's finish reason, and neither cancels the generation. -/
theorem fallback_round_trip {α : Type} (text : Str) :
    fallbackDecode (fallbackEncode text) = .ok text ∧
    (fallbackEncode text).length = Str.byteLen text ∧
    TokenizerBundle.scripted.Speaks (.scripted .new : SmallTransformer α) ∧
    TokenizerBundle.scripted.eosToken ∉ fallbackEncode text ∧
    (∀ seen, seen <+: fallbackEncode text → stableText fallbackBytes seen <+: text) ∧
    ∀ (stops : List Str) (id model : String) (kind : StreamKind) (reason : FinishReason),
      (∀ stop ∈ stops, stop ≠ [] → ¬ stop <:+: text) →
        collectGeneration fallbackDecode stops (finishedItems (fallbackEncode text) reason) =
          some (.ok ⟨text, Str.byteLen text, reason⟩, false) ∧
        ∃ effects, openaiStream fallbackDecode id model kind stops
            (finishedItems (fallbackEncode text) reason) = some effects ∧
          streamedText effects = text ∧ tokenFrames effects = Str.byteLen text ∧
          EndsDone (finishReasonLabel reason) (eventsOf effects) ∧ .cancelResponse ∉ effects := by
  refine ⟨congrArg Except.ok (lossyText_fallbackEncode text), length_fallbackEncode text,
    speaks_scripted, eosToken_notMem_fallbackEncode text, fun seen ↦ stableText_prefix_text text, ?_⟩
  intro stops id model kind reason hstops
  have hcollect := collect_fallbackEncode text hstops reason
  obtain ⟨outcome, effects, hresult, hstream, hmatches⟩ :=
    collectFrom_matches_streamFrom fallbackDecode id model kind
      (finishedItems (fallbackEncode text) reason) [] [] (.new stops)
  obtain rfl := Option.some.inj (hresult.symm.trans hcollect)
  obtain ⟨hdone, htext, hcount, hcancel⟩ := hmatches
  refine ⟨hcollect, effects, hstream, ?_, ?_, hdone, fun hmem ↦ ?_⟩
  · exact htext.symm
  · exact (hcount.trans (Nat.zero_add _)).symm
  · exact Bool.false_ne_true (hcancel.mp hmem)

/-- Two characters of several bytes, and a stop that is not among them. -/
theorem fallback_round_trip_accented :
    fallbackEncode "é€".toList = [196, 170, 227, 131, 173] ∧
    stableText fallbackBytes [196, 170, 227] = "é".toList ∧
    collectGeneration fallbackDecode ["e".toList, []]
      (finishedItems (fallbackEncode "é€".toList) .length) =
        some (.ok ⟨"é€".toList, 5, .length⟩, false) := by
  have hround := fallback_round_trip (α := Rat) "é€".toList
  refine ⟨by decide, by decide, ?_⟩
  exact (hround.2.2.2.2.2 ["e".toList, []] "cmpl" "scripted" .chat .length (by decide)).1

end HotBatch
