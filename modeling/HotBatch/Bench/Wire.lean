import HotBatch.Bench.Streaming
import HotBatch.Foundation.Utf8Encoding
import HotBatch.Server.VisibleText

/-!
# From the server to the client

The events of `openai_stream` go over the wire as server-sent events, with comments in between that
keep the connection alive, and reach the benchmark client in arbitrary chunks. The client counts the
tokens of the generation, and succeeds exactly when the generation does.

The HTTP library that writes the events and the JSON library on both sides are parameters.
-/

namespace HotBatch.Bench

open Framing

/-! ## Frames of text -/

/-- `str::from_utf8` reads back what was encoded. -/
theorem fromUtf8_encode (text : Str) : fromUtf8 (Utf8.encode text) = some text := by
  have hbytes : (ByteArray.mk (Utf8.encode text).toArray) = text.utf8Encode := by
    ext1
    exact (List.data_toByteArray).symm
  unfold fromUtf8
  rw [hbytes, List.utf8Decode?_utf8Encode]
  exact congrArg some (List.toList_toArray)

/-- No delimiter starts in bytes that are neither line feeds nor carriage returns. -/
theorem sseFrameBoundary_skip {bytes : List UInt8} (hlf : lineFeed ∉ bytes)
    (hcr : carriageReturn ∉ bytes) (rest : List UInt8) :
    sseFrameBoundary (bytes ++ rest) =
      (sseFrameBoundary rest).map fun found ↦ (found.1 + bytes.length, found.2) := by
  induction bytes with
  | nil => exact Option.map_id'.symm
  | cons byte bytes ih =>
      rw [List.mem_cons, not_or] at hlf hcr
      have hlong : ¬ [carriageReturn, lineFeed, carriageReturn, lineFeed].isPrefixOf
          (byte :: (bytes ++ rest)) = true := by
        rw [List.isPrefixOf, Bool.and_eq_true, beq_iff_eq]
        exact fun hstarts ↦ hcr.1 hstarts.1
      have hshort : ¬ [lineFeed, lineFeed].isPrefixOf (byte :: (bytes ++ rest)) = true := by
        rw [List.isPrefixOf, Bool.and_eq_true, beq_iff_eq]
        exact fun hstarts ↦ hlf.1 hstarts.1
      rw [List.cons_append, sseFrameBoundary, if_neg hlong, if_neg hshort, ih hlf.2 hcr.2,
        Option.map_map]
      rfl

/-- A line feed that another character follows ends no frame. -/
theorem sseFrameBoundary_lineFeed {byte : UInt8} (hbyte : byte ≠ lineFeed) (rest : List UInt8) :
    sseFrameBoundary (lineFeed :: byte :: rest) =
      (sseFrameBoundary (byte :: rest)).map fun found ↦ (found.1 + 1, found.2) := by
  have hshort : ¬ [lineFeed, lineFeed].isPrefixOf (lineFeed :: byte :: rest) = true := by
    rw [List.isPrefixOf, List.isPrefixOf, Bool.and_eq_true, Bool.and_eq_true, beq_iff_eq, beq_iff_eq]
    exact fun hstarts ↦ hbyte hstarts.2.1.symm
  have hlong : ¬ [carriageReturn, lineFeed, carriageReturn, lineFeed].isPrefixOf
      (lineFeed :: byte :: rest) = true := by
    rw [List.isPrefixOf, Bool.and_eq_true, beq_iff_eq]
    exact fun hstarts ↦ absurd hstarts.1 (by decide)
  rw [sseFrameBoundary, if_neg hlong, if_neg hshort]

/-- A text without line breaks. -/
def IsLine (text : Str) : Prop := '\n' ∉ text ∧ '\r' ∉ text

theorem IsLine.append {front back : Str} (hfront : IsLine front) (hback : IsLine back) :
    IsLine (front ++ back) :=
  ⟨fun hmem ↦ (List.mem_append.mp hmem).elim hfront.1 hback.1,
    fun hmem ↦ (List.mem_append.mp hmem).elim hfront.2 hback.2⟩

theorem IsLine.encode {text : Str} (hline : IsLine text) :
    lineFeed ∉ Utf8.encode text ∧ carriageReturn ∉ Utf8.encode text :=
  ⟨fun hmem ↦ hline.1 (Utf8.mem_of_mem_encode hmem (by decide)),
    fun hmem ↦ hline.2 (Utf8.mem_of_mem_encode hmem (by decide))⟩

/-- The lines of an event, as they are separated on the wire. -/
def joinLines : List Str → Str
  | [] => []
  | [line] => line
  | line :: next :: rest => line ++ '\n' :: joinLines (next :: rest)

/-- The lines with the empty line after them. -/
def eventFrame (eventLines : List Str) : Frame UInt8 :=
  ⟨Utf8.encode (joinLines eventLines), [lineFeed, lineFeed]⟩

theorem encode_lineFeed (rest : Str) : Utf8.encode ('\n' :: rest) = lineFeed :: Utf8.encode rest :=
  rfl

/-- A line that is not empty does not start with a line feed. -/
theorem exists_encode_eq_cons {line : Str} (hline : IsLine line) (hne : line ≠ []) :
    ∃ byte bytes, Utf8.encode line = byte :: bytes ∧ byte ≠ lineFeed := by
  cases hbytes : Utf8.encode line with
  | nil =>
      have htext := fromUtf8_encode line
      rw [hbytes] at htext
      exact absurd (Option.some.inj htext).symm hne
  | cons byte bytes =>
      refine ⟨byte, bytes, rfl, fun hfeed ↦ hline.encode.1 ?_⟩
      rw [hbytes, hfeed]
      exact List.mem_cons_self

/-- **An event ends where its empty line stands.** -/
theorem sseFrameBoundary_joinLines {eventLines : List Str}
    (hlines : ∀ line ∈ eventLines, IsLine line ∧ line ≠ []) :
    sseFrameBoundary (Utf8.encode (joinLines eventLines) ++ [lineFeed, lineFeed]) =
      some ((Utf8.encode (joinLines eventLines)).length, 2) := by
  induction eventLines with
  | nil => rfl
  | cons line others ih =>
      obtain ⟨hlf, hcr⟩ := (hlines line List.mem_cons_self).1.encode
      cases others with
      | nil =>
          rw [joinLines, sseFrameBoundary_skip hlf hcr]
          exact congrArg (fun length ↦ some (length, 2)) (Nat.zero_add _)
      | cons next rest =>
          have hothers : ∀ line ∈ next :: rest, IsLine line ∧ line ≠ [] :=
            fun line hmem ↦ hlines line (List.mem_cons_of_mem _ hmem)
          obtain ⟨hnext, hne⟩ := hothers next List.mem_cons_self
          obtain ⟨byte, bytes, hfirst, hbyte⟩ := exists_encode_eq_cons hnext hne
          obtain ⟨more, hmore⟩ : ∃ more, Utf8.encode (joinLines (next :: rest)) = byte :: more := by
            cases rest with
            | nil => exact ⟨bytes, hfirst⟩
            | cons _ _ =>
                rw [joinLines, Utf8.encode_append, hfirst]
                exact ⟨_, rfl⟩
          have hrest := ih hothers
          rw [hmore, List.cons_append] at hrest
          rw [joinLines, Utf8.encode_append, List.append_assoc, sseFrameBoundary_skip hlf hcr,
            encode_lineFeed, hmore, List.cons_append, List.cons_append,
            sseFrameBoundary_lineFeed hbyte, hrest]
          simp only [Option.map_some, List.length_append, List.length_cons]
          exact congrArg (fun length ↦ some (length, 2)) (by omega)

theorem sound_eventFrame {eventLines : List Str}
    (hlines : ∀ line ∈ eventLines, IsLine line ∧ line ≠ []) :
    (eventFrame eventLines).Sound sseDelimiting := sseFrameBoundary_joinLines hlines

/-! ## Reading the lines of an event -/

theorem linesFrom_line {line : Str} (hline : '\n' ∉ line) (current rest : Str) :
    linesFrom current (line ++ rest) = linesFrom (current ++ line) rest := by
  induction line generalizing current with
  | nil => rw [List.nil_append, List.append_nil]
  | cons c line ih =>
      rw [List.mem_cons, not_or] at hline
      rw [List.cons_append, linesFrom, if_neg (Ne.symm hline.1), ih hline.2, List.append_assoc]
      rfl

theorem stripCarriageReturn_line {line : Str} (hline : '\r' ∉ line) :
    stripCarriageReturn line = line := by
  unfold stripCarriageReturn
  rw [if_neg]
  exact fun hlast ↦ hline (List.mem_of_getLast? hlast)

/-- **The lines are those that were written.** -/
theorem lines_joinLines {eventLines : List Str}
    (hlines : ∀ line ∈ eventLines, IsLine line ∧ line ≠ []) :
    lines (joinLines eventLines) = eventLines := by
  unfold lines
  induction eventLines with
  | nil => rfl
  | cons line others ih =>
      obtain ⟨⟨hlf, hcr⟩, hne⟩ := hlines line List.mem_cons_self
      have hrest := ih fun line hmem ↦ hlines line (List.mem_cons_of_mem _ hmem)
      cases others with
      | nil =>
          have hread := linesFrom_line hlf [] []
          rw [List.append_nil, List.nil_append] at hread
          rw [joinLines, hread, linesFrom]
          exact if_neg (by simpa using hne)
      | cons next rest =>
          rw [joinLines, linesFrom_line hlf, List.nil_append, linesFrom, if_pos rfl,
            stripCarriageReturn_line hcr, hrest]

variable {parse : Str → Option Json}

/-- What the client makes of an event is what it makes of its lines. -/
theorem processFrame_eventFrame {eventLines : List Str}
    (hlines : ∀ line ∈ eventLines, IsLine line ∧ line ≠ []) (stats : Stats) :
    processFrame parse stats (eventFrame eventLines).content =
      eventLines.foldl (processLine parse) stats := by
  unfold processFrame eventFrame
  dsimp only
  rw [fromUtf8_encode]
  dsimp only
  rw [lines_joinLines hlines]

/-! ## Payloads -/

def stringJson (text : String) : Json := .string text.toList

/-- The choice of a payload, with its fields in the order of their keys. -/
def choiceJson (chunk : Chunk) : Json :=
  let finishReason := chunk.finishReason.elim .null stringJson
  let index := .number (toString chunk.index).toList
  match chunk.content with
  | .text text =>
      .object [("finish_reason".toList, finishReason), ("index".toList, index),
        ("text".toList, .string text)]
  | .delta content =>
      .object
        [("delta".toList, .object (content.elim [] fun text ↦ [("content".toList, .string text)])),
          ("finish_reason".toList, finishReason), ("index".toList, index)]

def chunkJson (chunk : Chunk) : Json :=
  .object
    [("choices".toList, .array [choiceJson chunk]), ("id".toList, stringJson chunk.id),
      ("model".toList, stringJson chunk.model), ("object".toList, stringJson chunk.object)]

def errorJson (error : ApiError) : Json :=
  .object [("error".toList, .object
    [("code".toList, stringJson error.code), ("message".toList, stringJson error.message),
      ("param".toList, error.param.elim .null stringJson), ("type".toList, stringJson error.kind)])]

/-- The payload has a text or a content, which may be empty. -/
def carriesText (chunk : Chunk) : Bool :=
  match chunk.content with
  | .text _ => true
  | .delta content => content.isSome

theorem choices_chunkJson (chunk : Chunk) :
    ((chunkJson chunk).get "choices").bind (Json.at? 0) = some (choiceJson chunk) := rfl

theorem choices_errorJson (error : ApiError) : (errorJson error).get "choices" = none := rfl

theorem isUnfinished_choiceJson (chunk : Chunk) :
    isUnfinished (choiceJson chunk) = chunk.finishReason.isNone := by
  obtain ⟨id, object, model, index, content, finishReason⟩ := chunk
  cases content <;> cases finishReason <;> rfl

theorem hasTokenPayload_choiceJson (chunk : Chunk) :
    hasTokenPayload (choiceJson chunk) = carriesText chunk := by
  obtain ⟨id, object, model, index, content, finishReason⟩ := chunk
  cases content with
  | text text => rfl
  | delta content => cases content <;> rfl

/-! ## The wire -/

/-- The libraries on both sides: the JSON library writes values and errors and reads them, the HTTP
library writes events with an optional name, and comments. -/
structure Wire where
  render : Json → Str
  errorText : ApiError → Str
  parse : Str → Option Json
  event : Option Str → Str → List UInt8
  keepAlive : List UInt8

namespace Wire

/-- The text stands on one line without blanks around it, and is read as this value. -/
structure Renders (wire : Wire) (text : Str) (value : Json) : Prop where
  line : IsLine text
  trimmed : trim text = text
  parsed : wire.parse text = some value

/-- A field of an event; a blank may follow the colon. -/
def IsField (name value line : Str) : Prop :=
  line = name ++ ':' :: value ∨ line = name ++ ':' :: ' ' :: value

/-- What the libraries are documented to do with these events. -/
structure Documented (wire : Wire) (events : List SseEvent) : Prop where
  chunk : ∀ payload, .chunk payload ∈ events →
    wire.Renders (wire.render (chunkJson payload)) (chunkJson payload)
  error : ∀ payload, .error payload ∈ events →
    wire.Renders (wire.errorText payload) (errorJson payload)
  marker : wire.parse "[DONE]".toList = none
  data : ∀ data, IsLine data → ∃ line, IsField "data".toList data line ∧
    wire.event none data = (eventFrame [line]).bytes
  named : ∀ name data, IsLine name → IsLine data → ∃ first second,
    IsField "event".toList name first ∧ IsField "data".toList data second ∧
      wire.event (some name) data = (eventFrame [first, second]).bytes
  keepAlive : ∃ comment, IsLine comment ∧ wire.keepAlive = (eventFrame [':' :: comment]).bytes

/-- What `openai_stream` yields, as the HTTP library is told to write it. -/
def eventBytes (wire : Wire) : SseEvent → List UInt8
  | .chunk payload => wire.event none (wire.render (chunkJson payload))
  | .error payload => wire.event (some "error".toList) (wire.errorText payload)
  | .done => wire.event none "[DONE]".toList

/-- The events in their order, with keep-alive comments anywhere. -/
inductive Carries (wire : Wire) : List SseEvent → List UInt8 → Prop
  | nil : Carries wire [] []
  | event (event : SseEvent) {events : List SseEvent} {bytes : List UInt8}
      (hcarries : Carries wire events bytes) :
      Carries wire (event :: events) (wire.eventBytes event ++ bytes)
  | keepAlive {events : List SseEvent} {bytes : List UInt8} (hcarries : Carries wire events bytes) :
      Carries wire events (wire.keepAlive ++ bytes)

end Wire

/-! ## What the client makes of the events -/

/-- A payload that tells no finish reason and has a text counts as a token. -/
def readEvent (stats : Stats) (event : SseEvent) : Stats :=
  if stats.stopped then stats
  else
    match event with
    | .chunk payload =>
        if payload.finishReason.isNone && carriesText payload then
          { stats with tokens := stats.tokens + 1 }
        else stats
    | .error _ => stats
    | .done => { stats with progress := .done }

theorem trim_blank (text : Str) : trim (' ' :: text) = trim text := by
  unfold trim
  rw [List.dropWhile_cons_of_pos (by decide)]

/-- The data of a field, once the client has trimmed it. -/
theorem exists_data_of_field {value line : Str} (hfield : Wire.IsField "data".toList value line)
    (htrimmed : trim value = value) :
    ∃ data, stripPrefix "data:".toList line = some data ∧ trim data = value := by
  rcases hfield with rfl | rfl
  · exact ⟨value, rfl, htrimmed⟩
  · exact ⟨' ' :: value, rfl, (trim_blank value).trans htrimmed⟩

theorem stripPrefix_event {value line : Str} (hfield : Wire.IsField "event".toList value line) :
    stripPrefix "data:".toList line = none := by
  rcases hfield with rfl | rfl <;> rfl

theorem stripPrefix_comment (comment : Str) : stripPrefix "data:".toList (':' :: comment) = none := rfl

theorem isLine_of_field {name value line : Str} (hname : IsLine name) (hvalue : IsLine value)
    (hfield : Wire.IsField name value line) : IsLine line ∧ line ≠ [] := by
  have hcolon : IsLine [':'] := ⟨by decide, by decide⟩
  have hblank : IsLine [':', ' '] := ⟨by decide, by decide⟩
  have hne : ∀ rest, name ++ ':' :: rest ≠ [] := fun rest hnil ↦
    absurd (List.append_eq_nil_iff.mp hnil).2 (List.cons_ne_nil _ _)
  rcases hfield with rfl | rfl
  · exact ⟨hname.append (hcolon.append hvalue), hne _⟩
  · exact ⟨hname.append (hblank.append hvalue), hne _⟩

section Reading

variable {wire : Wire} {stats : Stats}

theorem processLine_of_none {line : Str} (hnone : stripPrefix "data:".toList line = none) :
    processLine parse stats line = stats := by
  unfold processLine
  rw [hnone]
  split <;> rfl

/-- What the loop does with the line of a payload, up to the parser. -/
theorem exists_payload {text line : Str} {value : Json} (hmarker : wire.parse "[DONE]".toList = none)
    (hrenders : wire.Renders text value) (hfield : Wire.IsField "data".toList text line) :
    ∃ data, stripPrefix "data:".toList line = some data ∧ trim data = text ∧
      text ≠ "[DONE]".toList := by
  obtain ⟨data, hdata, htrim⟩ := exists_data_of_field hfield hrenders.trimmed
  refine ⟨data, hdata, htrim, fun htext ↦ ?_⟩
  have hparsed := hrenders.parsed
  rw [htext, hmarker] at hparsed
  cases hparsed

theorem processLine_chunk {payload : Chunk} {text line : Str}
    (hmarker : wire.parse "[DONE]".toList = none) (hrenders : wire.Renders text (chunkJson payload))
    (hfield : Wire.IsField "data".toList text line) (hrunning : stats.stopped = false) :
    processLine wire.parse stats line =
      if payload.finishReason.isNone && carriesText payload then
        { stats with tokens := stats.tokens + 1 }
      else stats := by
  obtain ⟨data, hdata, htrim, hnot⟩ := exists_payload hmarker hrenders hfield
  unfold processLine
  rw [hrunning, if_neg Bool.false_ne_true, hdata]
  dsimp only
  rw [htrim, if_neg hnot, hrenders.parsed]
  dsimp only
  rw [choices_chunkJson]
  dsimp only
  rw [isUnfinished_choiceJson, hasTokenPayload_choiceJson]

/-- An error has no choices and is passed over. -/
theorem processLine_error {payload : ApiError} {text line : Str}
    (hmarker : wire.parse "[DONE]".toList = none) (hrenders : wire.Renders text (errorJson payload))
    (hfield : Wire.IsField "data".toList text line) : processLine wire.parse stats line = stats := by
  obtain ⟨data, hdata, htrim, hnot⟩ := exists_payload hmarker hrenders hfield
  unfold processLine
  rw [hdata]
  dsimp only
  rw [htrim, if_neg hnot, hrenders.parsed]
  dsimp only
  rw [choices_errorJson]
  exact ite_self stats

theorem processLine_done {line : Str} (hfield : Wire.IsField "data".toList "[DONE]".toList line)
    (hrunning : stats.stopped = false) :
    processLine parse stats line = { stats with progress := .done } := by
  obtain ⟨data, hdata, htrim⟩ := exists_data_of_field hfield (by decide)
  unfold processLine
  rw [hrunning, if_neg Bool.false_ne_true, hdata]
  dsimp only
  rw [htrim, if_pos rfl]

/-- **Every event arrives as a frame that the client reads as it is meant.** -/
theorem exists_eventFrame {events : List SseEvent} (hdocumented : wire.Documented events)
    {event : SseEvent} (hevent : event ∈ events) :
    ∃ eventLines, (∀ line ∈ eventLines, IsLine line ∧ line ≠ []) ∧
      wire.eventBytes event = (eventFrame eventLines).bytes ∧
      ∀ stats : Stats, stats.stopped = false →
        eventLines.foldl (processLine wire.parse) stats = readEvent stats event := by
  have hdataName : IsLine "data".toList := ⟨by decide, by decide⟩
  cases event with
  | chunk payload =>
      have hrenders := hdocumented.chunk payload hevent
      obtain ⟨line, hfield, hbytes⟩ := hdocumented.data _ hrenders.line
      refine ⟨[line], ?_, hbytes, fun stats hrunning ↦ ?_⟩
      · exact List.forall_mem_singleton.mpr (isLine_of_field hdataName hrenders.line hfield)
      · rw [List.foldl_cons, List.foldl_nil, readEvent, hrunning, if_neg Bool.false_ne_true]
        exact processLine_chunk hdocumented.marker hrenders hfield hrunning
  | error payload =>
      have hrenders := hdocumented.error payload hevent
      have hname : IsLine "error".toList := ⟨by decide, by decide⟩
      have heventName : IsLine "event".toList := ⟨by decide, by decide⟩
      obtain ⟨first, second, hfirst, hsecond, hbytes⟩ := hdocumented.named _ _ hname hrenders.line
      refine ⟨[first, second], ?_, hbytes, fun stats hrunning ↦ ?_⟩
      · exact List.forall_mem_cons.mpr ⟨isLine_of_field heventName hname hfirst,
          List.forall_mem_singleton.mpr (isLine_of_field hdataName hrenders.line hsecond)⟩
      · rw [List.foldl_cons, List.foldl_cons, List.foldl_nil,
          processLine_of_none (stripPrefix_event hfirst),
          processLine_error hdocumented.marker hrenders hsecond, readEvent, hrunning,
          if_neg Bool.false_ne_true]
  | done =>
      have hmarker : IsLine "[DONE]".toList := ⟨by decide, by decide⟩
      obtain ⟨line, hfield, hbytes⟩ := hdocumented.data _ hmarker
      refine ⟨[line], ?_, hbytes, fun stats hrunning ↦ ?_⟩
      · exact List.forall_mem_singleton.mpr (isLine_of_field hdataName hmarker hfield)
      · rw [List.foldl_cons, List.foldl_nil, readEvent, hrunning, if_neg Bool.false_ne_true]
        exact processLine_done hfield hrunning

theorem foldl_readEvent_of_stopped (hstopped : stats.stopped = true) (events : List SseEvent) :
    events.foldl readEvent stats = stats := by
  induction events with
  | nil => rfl
  | cons event events ih =>
      have hsame : readEvent stats event = stats := if_pos hstopped
      rw [List.foldl_cons, hsame]
      exact ih

/-- The bytes are frames, and the client makes of them what it makes of the events. -/
theorem exists_frames {all events : List SseEvent} (hdocumented : wire.Documented all)
    (hevents : events ⊆ all) {bytes : List UInt8} (hcarries : wire.Carries events bytes) :
    ∃ frames : List (Frame UInt8), bytes = frames.flatMap Frame.bytes ∧
      (∀ frame ∈ frames, frame.Sound sseDelimiting) ∧
      ∀ stats : Stats, Receiver.feed (sseConsumer wire.parse) stats (frames.map Frame.content) =
        events.foldl readEvent stats := by
  induction hcarries with
  | nil => exact ⟨[], rfl, fun _ hmem ↦ absurd hmem List.not_mem_nil, fun _ ↦ rfl⟩
  | event event _ ih =>
      obtain ⟨hevent, hrest⟩ := List.cons_subset.mp hevents
      obtain ⟨frames, rfl, hsound, hfeed⟩ := ih hrest
      obtain ⟨eventLines, hlines, hbytes, hread⟩ := exists_eventFrame hdocumented hevent
      refine ⟨eventFrame eventLines :: frames, ?_, ?_, fun stats ↦ ?_⟩
      · rw [List.flatMap_cons, hbytes]
      · exact List.forall_mem_cons.mpr ⟨sound_eventFrame hlines, hsound⟩
      · cases hstopped : stats.stopped with
        | true =>
            rw [foldl_readEvent_of_stopped hstopped]
            exact Receiver.feed_of_stopped hstopped _
        | false =>
            rw [List.map_cons, List.foldl_cons, Receiver.feed_cons hstopped, ← hread stats hstopped,
              ← processFrame_eventFrame hlines]
            exact hfeed _
  | keepAlive _ ih =>
      obtain ⟨frames, rfl, hsound, hfeed⟩ := ih hevents
      obtain ⟨comment, hcomment, hbytes⟩ := hdocumented.keepAlive
      have hlines : ∀ line ∈ [':' :: comment], IsLine line ∧ line ≠ [] := by
        have hcolon : IsLine [':'] := ⟨by decide, by decide⟩
        exact List.forall_mem_singleton.mpr ⟨hcolon.append hcomment, List.cons_ne_nil _ _⟩
      refine ⟨eventFrame [':' :: comment] :: frames, ?_, ?_, fun stats ↦ ?_⟩
      · rw [List.flatMap_cons, hbytes]
      · exact List.forall_mem_cons.mpr ⟨sound_eventFrame hlines, hsound⟩
      · cases hstopped : stats.stopped with
        | true =>
            rw [foldl_readEvent_of_stopped hstopped]
            exact Receiver.feed_of_stopped hstopped _
        | false =>
            rw [List.map_cons, Receiver.feed_cons hstopped, ← hfeed]
            have hsame : (sseConsumer wire.parse).consume stats
                (eventFrame [':' :: comment]).content = stats := by
              change processFrame wire.parse stats _ = stats
              rw [processFrame_eventFrame hlines, List.foldl_cons, List.foldl_nil]
              exact processLine_of_none (stripPrefix_comment comment)
            rw [hsame]

end Reading

/-! ## The count of the client -/

/-- How far the client comes with the events of an outcome. -/
def Reads (stats : Stats) : Except ApiError CollectedGeneration → Prop
  | .ok generation => stats = ⟨generation.completionTokens, .done⟩
  | .error _ => stats.progress = .reading

theorem readEvent_tokenChunk (id model : String) (kind : StreamKind) (text : Str) (count : ℕ) :
    readEvent ⟨count, .reading⟩ (.chunk (tokenChunk id model kind text)) = ⟨count + 1, .reading⟩ := by
  cases kind <;> rfl

theorem readEvent_stopChunk (id model : String) (kind : StreamKind) (count : ℕ) :
    readEvent ⟨count, .reading⟩ (.chunk (stopChunk id model kind)) = ⟨count, .reading⟩ := by
  cases kind <;> rfl

theorem readEvent_finishChunk (id model : String) (kind : StreamKind) (remaining : Str)
    (reason : FinishReason) (count : ℕ) :
    readEvent ⟨count, .reading⟩ (.chunk (finishChunk id model kind remaining reason)) =
      ⟨count, .reading⟩ := by
  cases kind <;> rfl

theorem eventsOf_cons (event : SseEvent) (effects : List StreamEffect) :
    eventsOf (.yield event :: effects) = event :: eventsOf effects := rfl

/-- The client counts along with the loop that collects, by induction on the items still to come. -/
theorem reads_streamFrom (decode : Decode) (id model : String) (kind : StreamKind)
    (items : List StreamItem) (tokens : List Token) (text : Str) (output : TextOutputFilter) :
    ∃ outcome effects, collectFrom decode tokens text output items = some outcome ∧
      streamFrom decode id model kind tokens output items = some effects ∧
      Reads ((eventsOf effects).foldl readEvent ⟨tokens.length, .reading⟩) outcome.1 := by
  induction items generalizing tokens text output with
  | nil => exact ⟨_, _, rfl, rfl, rfl⟩
  | cons item items ih =>
      cases item with
      | error message => exact ⟨_, _, rfl, rfl, rfl⟩
      | finished reason =>
          simp only [collectFrom, streamFrom]
          cases decode tokens with
          | error error => exact ⟨_, _, rfl, rfl, rfl⟩
          | ok decoded =>
              rcases hfinish : output.finish decoded with ⟨message | remaining, next⟩
              · simp only [hfinish]
                exact ⟨_, _, rfl, rfl, rfl⟩
              · simp only [hfinish]
                refine ⟨_, _, rfl, rfl, ?_⟩
                rw [eventsOf_cons, List.foldl_cons, readEvent_finishChunk]
                rfl
      | token token =>
          have hlength : (tokens ++ [token]).length = tokens.length + 1 := by
            rw [List.length_append, List.length_singleton]
          simp only [collectFrom, streamFrom]
          cases decode (tokens ++ [token]) with
          | error error => exact ⟨_, _, rfl, rfl, rfl⟩
          | ok decoded =>
              have hsome := output.push_isSome (Utf8.trimReplacement decoded)
              rcases hpush : output.push (Utf8.trimReplacement decoded) with
                _ | ⟨message | update, next⟩
              · simp [hpush] at hsome
              · simp only [hpush]
                exact ⟨_, _, rfl, rfl, rfl⟩
              · cases update with
                | stop fragment =>
                    simp only [hpush]
                    refine ⟨_, _, rfl, rfl, ?_⟩
                    change Reads ([SseEvent.chunk _, .chunk _, .done].foldl readEvent _) _
                    rw [List.foldl_cons, List.foldl_cons, readEvent_tokenChunk, readEvent_stopChunk,
                      ← hlength]
                    rfl
                | «continue» fragment =>
                    obtain ⟨outcome, effects, hcollect, hstream, hreads⟩ :=
                      ih (tokens ++ [token]) (text ++ fragment) next
                    simp only [hpush, hcollect, hstream, Option.map_some]
                    refine ⟨_, _, rfl, rfl, ?_⟩
                    rw [eventsOf_cons, List.foldl_cons, readEvent_tokenChunk, ← hlength]
                    exact hreads

/-- **The client counts what was generated.** However the events of a response are cut into chunks
and whatever comments come between them: a client that has all of their bytes succeeds exactly when
the same items can be collected, and has counted the completion tokens then; and a client whose
response breaks off anywhere before that either fails or has counted them all. -/
theorem client_counts_generation (wire : Wire) (decode : Decode) (id model : String)
    (kind : StreamKind) (stops : List Str) (items : List StreamItem) {effects : List StreamEffect}
    (hstream : openaiStream decode id model kind stops items = some effects)
    (hdocumented : wire.Documented (eventsOf effects)) {bytes : List UInt8}
    (hcarries : wire.Carries (eventsOf effects) bytes) {chunks : List (List UInt8)}
    (hstart : chunks.flatten <+: bytes) (broken : Bool) :
    (∀ count, oneStreamingRequest wire.parse chunks broken = .ok count →
      ∃ generation cancelled, collectGeneration decode stops items =
        some (.ok generation, cancelled) ∧ count = generation.completionTokens) ∧
    (chunks.flatten = bytes → ∀ generation cancelled,
      collectGeneration decode stops items = some (.ok generation, cancelled) →
        oneStreamingRequest wire.parse chunks broken = .ok generation.completionTokens) := by
  obtain ⟨⟨result, cancelled⟩, effects', hcollect, hstream', hreads⟩ :=
    reads_streamFrom decode id model kind items [] [] (.new stops)
  obtain rfl : effects' = effects := Option.some.inj (hstream'.symm.trans hstream)
  obtain ⟨frames, rfl, hsound, hfeed⟩ :=
    exists_frames hdocumented (List.Subset.refl _) hcarries
  obtain ⟨earlier, later, rfl, hstate, hall⟩ : ∃ earlier later, frames = earlier ++ later ∧
      (receiveAll wire.parse chunks).state =
        Receiver.feed (sseConsumer wire.parse) ⟨0, .reading⟩ (earlier.map Frame.content) ∧
      (chunks.flatten = frames.flatMap Frame.bytes → later = []) :=
    Receiver.run_encoded hsound hstart _
  have hwhole := hfeed ⟨0, .reading⟩
  rw [List.map_append] at hwhole
  refine ⟨fun count hcount ↦ ?_, fun hflatten generation cancelled' hgeneration ↦ ?_⟩
  · have hdone : (receiveAll wire.parse chunks).state = ⟨count, .done⟩ := by
      unfold oneStreamingRequest at hcount
      rcases hstats : (receiveAll wire.parse chunks).state with ⟨tokens, progress⟩
      rw [hstats] at hcount
      cases progress with
      | done =>
          have htokens : tokens = count := Except.ok.inj hcount
          rw [htokens]
      | reading | failed _ => cases hcount
    rw [hdone] at hstate
    have hstopped : (sseConsumer wire.parse).stopped (Receiver.feed (sseConsumer wire.parse)
        ⟨0, .reading⟩ (earlier.map Frame.content)) = true := by
      rw [← hstate]
      rfl
    rw [Receiver.feed_append_of_stopped hstopped, ← hstate] at hwhole
    have hreads' : Reads ⟨count, .done⟩ result := hwhole ▸ hreads
    cases result with
    | error error => cases hreads'
    | ok generation => exact ⟨generation, cancelled, hcollect, congrArg Stats.tokens hreads'⟩
  · have hresult : result = .ok generation :=
      congrArg Prod.fst (Option.some.inj (hcollect.symm.trans hgeneration))
    rw [hall hflatten, List.map_nil, List.append_nil, ← hstate] at hwhole
    rw [hresult] at hreads
    have hdone : (receiveAll wire.parse chunks).state = ⟨generation.completionTokens, .done⟩ :=
      hwhole.trans hreads
    unfold oneStreamingRequest
    rw [hdone]

/-! A stream with one token, its libraries at these events, and its bytes one by one. -/

def tinyToken : Chunk := tokenChunk "cmpl-1" "tiny" .completion ['a']

def tinyTokenText : Str :=
  "\x7b\"choices\":[\x7b\"finish_reason\":null,\"index\":0,\"text\":\"a\"\x7d],".toList ++
    "\"id\":\"cmpl-1\",\"model\":\"tiny\",\"object\":\"text_completion\"\x7d".toList

def tinyFinish : Chunk := finishChunk "cmpl-1" "tiny" .completion [] .length

def tinyFinishText : Str :=
  "\x7b\"choices\":[\x7b\"finish_reason\":\"length\",\"index\":0,\"text\":\"\"\x7d],".toList ++
    "\"id\":\"cmpl-1\",\"model\":\"tiny\",\"object\":\"text_completion\"\x7d".toList

def tinyWire : Wire where
  render value :=
    if (((value.get "choices").bind (Json.at? 0)).map isUnfinished).getD false then tinyTokenText
    else tinyFinishText
  errorText _ := []
  parse data :=
    if data = tinyTokenText then some (chunkJson tinyToken)
    else if data = tinyFinishText then some (chunkJson tinyFinish)
    else none
  event name data :=
    match name with
    | none => (eventFrame ["data: ".toList ++ data]).bytes
    | some name => (eventFrame ["event: ".toList ++ name, "data: ".toList ++ data]).bytes
  keepAlive := (eventFrame [[':']]).bytes

def tinyEvents : List SseEvent := [.chunk tinyToken, .chunk tinyFinish, .done]

theorem documented_tinyWire : tinyWire.Documented tinyEvents where
  chunk payload hmem := by
    have hcases : payload = tinyToken ∨ payload = tinyFinish := by
      simpa [tinyEvents] using hmem
    rcases hcases with rfl | rfl
    · exact ⟨⟨by decide +kernel, by decide +kernel⟩, by decide +kernel, rfl⟩
    · exact ⟨⟨by decide +kernel, by decide +kernel⟩, by decide +kernel, rfl⟩
  error payload hmem := by simp [tinyEvents] at hmem
  marker := rfl
  data data _ := ⟨_, .inr rfl, rfl⟩
  named name data _ _ := ⟨_, _, .inr rfl, .inr rfl, rfl⟩
  keepAlive := ⟨[], ⟨by decide, by decide⟩, rfl⟩

theorem client_counts_generation_tinyWire :
    ∃ bytes, tinyWire.Carries tinyEvents bytes ∧
      oneStreamingRequest tinyWire.parse (bytes.map fun byte ↦ [byte]) false = .ok 1 := by
  have hcarries := (((Wire.Carries.nil : tinyWire.Carries [] []).event .done).event
    (.chunk tinyFinish)).keepAlive.event (.chunk tinyToken)
  refine ⟨_, hcarries, ?_⟩
  have hstream : openaiStream fallbackDecode "cmpl-1" "tiny" .completion []
      [.token 98, .finished .length] =
        some [.yield (.chunk tinyToken), .yield (.chunk tinyFinish), .yield .done] := by
    decide +kernel
  have hflatten (bytes : List UInt8) : (bytes.map fun byte ↦ [byte]).flatten = bytes := by
    rw [← List.flatMap_def, List.flatMap_singleton']
  have hcounts := client_counts_generation tinyWire fallbackDecode "cmpl-1" "tiny" .completion []
    [.token 98, .finished .length] hstream documented_tinyWire hcarries
    (List.prefix_iff_eq_take.mpr (by rw [hflatten, List.take_length])) false
  exact hcounts.2 (hflatten _) ⟨['a'], 1, .length⟩ false (by decide +kernel)

end HotBatch.Bench
