import Mathlib.Data.List.DropRight
import HotBatch.Foundation.Framing
import HotBatch.Foundation.Str

/-!
# The benchmark client

The receive loop of `one_streaming_request`: it splits the response into server-sent events, counts
those that carry a token and ends at the `[DONE]` marker, at the first event it cannot read or with
the response. Times are left out. The JSON parser is a parameter.
-/

namespace HotBatch.Bench

open Framing

/-! ## Frames -/

def carriageReturn : UInt8 := 13

def lineFeed : UInt8 := 10

/-- `sse_frame_boundary`: where the first delimiter starts, and its length. -/
def sseFrameBoundary : List UInt8 → Option (ℕ × ℕ)
  | [] => none
  | byte :: rest =>
      if [carriageReturn, lineFeed, carriageReturn, lineFeed].isPrefixOf (byte :: rest) then
        some (0, 4)
      else if [lineFeed, lineFeed].isPrefixOf (byte :: rest) then some (0, 2)
      else (sseFrameBoundary rest).map fun found ↦ (found.1 + 1, found.2)

theorem sseFrameBoundary_pos {buffer : List UInt8} {frameEnd delimiterLen : ℕ}
    (hfound : sseFrameBoundary buffer = some (frameEnd, delimiterLen)) : 0 < delimiterLen := by
  induction buffer generalizing frameEnd with
  | nil => cases hfound
  | cons byte rest ih =>
      rw [sseFrameBoundary] at hfound
      split at hfound
      · cases hfound
        decide
      · split at hfound
        · cases hfound
          decide
        · obtain ⟨found, hrest, heq⟩ := Option.map_eq_some_iff.mp hfound
          cases heq
          exact ih hrest

theorem sseFrameBoundary_le_length {buffer : List UInt8} {frameEnd delimiterLen : ℕ}
    (hfound : sseFrameBoundary buffer = some (frameEnd, delimiterLen)) :
    frameEnd + delimiterLen ≤ buffer.length := by
  induction buffer generalizing frameEnd with
  | nil => cases hfound
  | cons byte rest ih =>
      rw [sseFrameBoundary] at hfound
      split at hfound
      · next hstarts =>
          cases hfound
          exact (List.isPrefixOf_iff_prefix.mp hstarts).length_le
      · split at hfound
        · next hstarts =>
            cases hfound
            exact (List.isPrefixOf_iff_prefix.mp hstarts).length_le
        · obtain ⟨found, hrest, heq⟩ := Option.map_eq_some_iff.mp hfound
          cases heq
          have hle := ih hrest
          rw [List.length_cons]
          omega

/-- A long delimiter that is still incomplete leaves no room for another one in the bytes after its
first. -/
theorem sseFrameBoundary_of_long {byte : UInt8} {rest more : List UInt8}
    (hnot : ¬ [carriageReturn, lineFeed, carriageReturn, lineFeed].isPrefixOf (byte :: rest) = true)
    (hstarts : [carriageReturn, lineFeed, carriageReturn, lineFeed].isPrefixOf
      (byte :: (rest ++ more)) = true) :
    sseFrameBoundary rest = none := by
  match rest with
  | [] => rfl
  | [first] =>
      simp only [List.isPrefixOf, List.cons_append, Bool.and_eq_true, beq_iff_eq] at hstarts
      obtain ⟨_, rfl, _⟩ := hstarts
      rfl
  | [first, second] =>
      simp only [List.isPrefixOf, List.cons_append, Bool.and_eq_true, beq_iff_eq] at hstarts
      obtain ⟨_, rfl, rfl, _⟩ := hstarts
      rfl
  | first :: second :: third :: rest =>
      exact absurd hstarts hnot

/-- The same of the short delimiter. -/
theorem sseFrameBoundary_of_short {byte : UInt8} {rest more : List UInt8}
    (hnot : ¬ [lineFeed, lineFeed].isPrefixOf (byte :: rest) = true)
    (hstarts : [lineFeed, lineFeed].isPrefixOf (byte :: (rest ++ more)) = true) :
    sseFrameBoundary rest = none := by
  match rest with
  | [] => rfl
  | first :: rest => exact absurd hstarts hnot

theorem not_long_of_short {byte : UInt8} {rest more : List UInt8}
    (hstarts : [lineFeed, lineFeed].isPrefixOf (byte :: rest) = true) :
    ¬ [carriageReturn, lineFeed, carriageReturn, lineFeed].isPrefixOf
      (byte :: (rest ++ more)) = true := by
  intro hlong
  rw [List.isPrefixOf, Bool.and_eq_true, beq_iff_eq] at hstarts hlong
  exact absurd (hstarts.1.trans hlong.1.symm) (by decide)

theorem isPrefixOf_append {start buffer : List UInt8} (hstarts : start.isPrefixOf buffer = true)
    (more : List UInt8) : start.isPrefixOf (buffer ++ more) = true :=
  List.isPrefixOf_iff_prefix.mpr
    ((List.isPrefixOf_iff_prefix.mp hstarts).trans (List.prefix_append _ _))

/-- **The first delimiter of a buffer is also the first one of every longer buffer.** -/
theorem sseFrameBoundary_append {buffer : List UInt8} {found : ℕ × ℕ}
    (hfound : sseFrameBoundary buffer = some found) (more : List UInt8) :
    sseFrameBoundary (buffer ++ more) = some found := by
  induction buffer generalizing found with
  | nil => cases hfound
  | cons byte rest ih =>
      rw [sseFrameBoundary] at hfound
      rw [List.cons_append, sseFrameBoundary]
      split at hfound
      · next hlong =>
          have hlonger := isPrefixOf_append hlong more
          rw [List.cons_append] at hlonger
          rwa [if_pos hlonger]
      · next hlong =>
          split at hfound
          · next hshort =>
              have hlonger := isPrefixOf_append hshort more
              rw [List.cons_append] at hlonger
              rwa [if_neg (not_long_of_short hshort), if_pos hlonger]
          · next hshort =>
              obtain ⟨later, hlater, hlaterFound⟩ := Option.map_eq_some_iff.mp hfound
              have hlong' : ¬ [carriageReturn, lineFeed, carriageReturn, lineFeed].isPrefixOf
                  (byte :: (rest ++ more)) = true := by
                intro hstarts
                rw [sseFrameBoundary_of_long hlong hstarts] at hlater
                cases hlater
              have hshort' : ¬ [lineFeed, lineFeed].isPrefixOf (byte :: (rest ++ more)) = true := by
                intro hstarts
                rw [sseFrameBoundary_of_short hshort hstarts] at hlater
                cases hlater
              rw [if_neg hlong', if_neg hshort', ih hlater, Option.map_some, hlaterFound]

theorem sseFrameBoundary_delimiter {buffer : List UInt8} {frameEnd delimiterLen : ℕ}
    (hfound : sseFrameBoundary buffer = some (frameEnd, delimiterLen)) :
    (buffer.drop frameEnd).take delimiterLen = [lineFeed, lineFeed] ∨
      (buffer.drop frameEnd).take delimiterLen =
        [carriageReturn, lineFeed, carriageReturn, lineFeed] := by
  induction buffer generalizing frameEnd with
  | nil => cases hfound
  | cons byte rest ih =>
      rw [sseFrameBoundary] at hfound
      split at hfound
      · next hlong =>
          cases hfound
          exact .inr (List.prefix_iff_eq_take.mp (List.isPrefixOf_iff_prefix.mp hlong)).symm
      · split at hfound
        · next hshort =>
            cases hfound
            exact .inl (List.prefix_iff_eq_take.mp (List.isPrefixOf_iff_prefix.mp hshort)).symm
        · obtain ⟨found, hrest, heq⟩ := Option.map_eq_some_iff.mp hfound
          cases heq
          exact ih hrest

/-- Server-sent events as frames. -/
def sseDelimiting : Delimiting UInt8 where
  boundary := sseFrameBoundary
  pos := sseFrameBoundary_pos
  le_length := sseFrameBoundary_le_length
  boundary_append := sseFrameBoundary_append

/-! ## Lines -/

/-- The line without a carriage return at its end. -/
def stripCarriageReturn (line : Str) : Str :=
  if line.getLast? = some '\r' then line.dropLast else line

/-- `str::lines` of the rest of a text whose current line has begun. -/
def linesFrom (current : Str) : Str → List Str
  | [] => if current.isEmpty then [] else [current]
  | c :: rest =>
      if c = '\n' then stripCarriageReturn current :: linesFrom [] rest
      else linesFrom (current ++ [c]) rest

/-- `str::lines`: a line ends with a line feed, which may follow a carriage return. -/
def lines (text : Str) : List Str := linesFrom [] text

/-- `str::trim`. -/
def trim (text : Str) : Str := (text.dropWhile isWhitespace).rdropWhile isWhitespace

def stripPrefix (start text : Str) : Option Str :=
  if start.isPrefixOf text then some (text.drop start.length) else none

/-- `str::from_utf8`. -/
def fromUtf8 (bytes : List UInt8) : Option Str :=
  ((ByteArray.mk bytes.toArray).utf8Decode?).map Array.toList

/-! ## Events -/

/-- `serde_json::Value`. -/
inductive Json where
  | null
  | bool (value : Bool)
  | number (text : Str)
  | string (value : Str)
  | array (items : List Json)
  | object (fields : List (Str × Json))

namespace Json

/-- `get` with a key. -/
def get (key : String) : Json → Option Json
  | object fields => (fields.find? fun field ↦ field.1 = key.toList).map Prod.snd
  | _ => none

/-- `get` with an index. -/
def at? (index : ℕ) : Json → Option Json
  | array items => items[index]?
  | _ => none

def isNull : Json → Bool
  | null => true
  | _ => false

def asStr : Json → Option Str
  | string value => some value
  | _ => none

end Json

/-- Whether the loop goes on, has seen `[DONE]` or has failed. -/
inductive Progress where
  | reading
  | done
  | failed (message : String)
  deriving DecidableEq

/-- `RequestStats` without the times, and where the loop stands. -/
structure Stats where
  tokens : ℕ
  progress : Progress
  deriving DecidableEq

def Stats.stopped (stats : Stats) : Bool := stats.progress ≠ .reading

theorem stopped_eq_false_iff {stats : Stats} : stats.stopped = false ↔ stats.progress = .reading := by
  simp [Stats.stopped]

/-- The choice has a `finish_reason`, and it is null. -/
def isUnfinished (choice : Json) : Bool :=
  match choice.get "finish_reason" with
  | some reason => reason.isNull
  | none => false

/-- The choice has a text or the content of a delta. -/
def hasTokenPayload (choice : Json) : Bool :=
  ((choice.get "text").bind Json.asStr).isSome ||
    (((choice.get "delta").bind (Json.get "content")).bind Json.asStr).isSome

section Loop

variable (parse : Str → Option Json)

/-- The body of the loop over the lines of a frame. -/
def processLine (stats : Stats) (line : Str) : Stats :=
  if stats.stopped then stats
  else
    match stripPrefix "data:".toList line with
    | none => stats
    | some data =>
        let data := trim data
        if data = "[DONE]".toList then { stats with progress := .done }
        else
          match parse data with
          | none => { stats with progress := .failed "parsing SSE JSON" }
          | some value =>
              match (value.get "choices").bind (Json.at? 0) with
              | none => stats
              | some choice =>
                  if isUnfinished choice && hasTokenPayload choice then
                    { stats with tokens := stats.tokens + 1 }
                  else stats

/-- The body of the loop over the frames. -/
def processFrame (stats : Stats) (frame : List UInt8) : Stats :=
  match fromUtf8 frame with
  | none => { stats with progress := .failed "SSE frame was not UTF-8" }
  | some text => (lines text).foldl (processLine parse) stats

def sseConsumer : Consumer UInt8 Stats where
  consume := processFrame parse
  stopped := Stats.stopped

/-- Before the first chunk. -/
def initial : Receiver UInt8 Stats := ⟨[], [], ⟨0, .reading⟩⟩

/-- The loop over the chunks of the response. -/
def receiveAll (chunks : List (List UInt8)) : Receiver UInt8 Stats :=
  Receiver.run sseDelimiting (sseConsumer parse) chunks initial

/-- `one_streaming_request` from the response on: how many tokens it has counted. The response either
ends after its chunks or breaks off. -/
def oneStreamingRequest (chunks : List (List UInt8)) (broken : Bool) : Except String ℕ :=
  let stats := (receiveAll parse chunks).state
  match stats.progress with
  | .done => .ok stats.tokens
  | .failed message => .error message
  | .reading =>
      .error (if broken then "reading SSE chunk" else "SSE stream ended before the [DONE] marker")

theorem consumed_receiveAll (chunks : List (List UInt8)) :
    Receiver.Consumed (sseConsumer parse) ⟨0, .reading⟩ (receiveAll parse chunks) := by
  refine Receiver.consumed_run chunks ⟨rfl, fun earlier later hframes hlater ↦ ?_⟩
  exact absurd (List.append_eq_nil_iff.mp hframes.symm).2 hlater

/-- Every frame ends with one of the two delimiters. -/
def Delimited (r : Receiver UInt8 Stats) : Prop :=
  ∀ frame ∈ r.frames, frame.delimiter = [lineFeed, lineFeed] ∨
    frame.delimiter = [carriageReturn, lineFeed, carriageReturn, lineFeed]

theorem delimited_receiveAll (chunks : List (List UInt8)) :
    Delimited (receiveAll parse chunks) := by
  have hextend (r : Receiver UInt8 Stats) (more : List UInt8) (hdelimited : Delimited r) :
      Delimited (r.extend more) := hdelimited
  refine Receiver.run_invariant hextend ?_ chunks ?_
  · intro r frameEnd delimiterLen _ hfound hframes frame hmem
    cases List.mem_append.mp hmem with
    | inl hmem => exact hframes frame hmem
    | inr hmem =>
        rw [List.mem_singleton.mp hmem]
        exact sseFrameBoundary_delimiter hfound
  · intro frame hmem
    cases hmem

/-- **What the client makes of a response does not depend on how it arrives.** For two ways of cutting
the same bytes into chunks it extracts the same frames, stops at the same one for the same reason and
counts the same tokens; and the frames with their delimiters and the rest of the buffer are the bytes
of the chunks it has read. -/
theorem receiveAll_eq_of_flatten_eq {first second : List (List UInt8)}
    (hsame : first.flatten = second.flatten) :
    (receiveAll parse first).frames = (receiveAll parse second).frames ∧
    (receiveAll parse first).state = (receiveAll parse second).state ∧
    ((receiveAll parse first).state.progress = .reading →
      (receiveAll parse first).buffer = (receiveAll parse second).buffer) ∧
    (∀ broken, oneStreamingRequest parse first broken = oneStreamingRequest parse second broken) ∧
    ∀ chunks, (receiveAll parse chunks).state =
        ((receiveAll parse chunks).frames.map Frame.content).foldl (processFrame parse)
          ⟨0, .reading⟩ ∧
      (∀ earlier later, (receiveAll parse chunks).frames = earlier ++ later → later ≠ [] →
        ((earlier.map Frame.content).foldl (processFrame parse) ⟨0, .reading⟩).progress =
          .reading) ∧
      Delimited (receiveAll parse chunks) ∧
      ∃ taken rest, chunks = taken ++ rest ∧
        (receiveAll parse chunks).frames.flatMap Frame.bytes ++ (receiveAll parse chunks).buffer =
          taken.flatten ∧
        (rest ≠ [] → (receiveAll parse chunks).state.progress ≠ .reading) := by
  have hagrees : Receiver.Agrees (sseConsumer parse) (receiveAll parse first)
      (receiveAll parse second) :=
    Receiver.run_agrees_of_flatten_eq hsame (Receiver.drain_of_none rfl)
  refine ⟨hagrees.frames_eq, hagrees.state_eq, fun hreading ↦ ?_, fun broken ↦ ?_, fun chunks ↦ ?_⟩
  · exact hagrees.buffer_eq (stopped_eq_false_iff.mpr hreading)
  · rw [oneStreamingRequest, hagrees.state_eq, oneStreamingRequest]
  · have hconsumed := consumed_receiveAll parse chunks
    obtain ⟨taken, rest, hchunks, hbytes, hrest⟩ :=
      @Receiver.bytes_run _ _ sseDelimiting (sseConsumer parse) chunks initial
    refine ⟨hconsumed.state_eq, fun earlier later hframes hlater ↦ ?_, delimited_receiveAll parse chunks,
      taken, rest, hchunks, hbytes, fun hmore hreading ↦ ?_⟩
    · exact stopped_eq_false_iff.mp (hconsumed.running earlier later hframes hlater)
    · have hstopped := hrest hmore
      rw [← receiveAll] at hstopped
      have hnot := stopped_eq_false_iff.mpr hreading
      exact absurd (hstopped.symm.trans hnot) Bool.noConfusion

end Loop

/-- The data of an event with one token. -/
def tinyEvent : String := "\x7b\"choices\":[\x7b\"finish_reason\":null,\"text\":\"a\"\x7d]\x7d"

/-- What the parser makes of that event. -/
def tinyParse (data : Str) : Option Json :=
  if data = tinyEvent.toList then
    some (.object [("choices".toList, .array
      [.object [("finish_reason".toList, .null), ("text".toList, .string ['a'])]])])
  else none

def ascii (text : String) : List UInt8 := text.toList.map fun c ↦ UInt8.ofNat c.toNat

/-- One token and the marker, with both delimiters. -/
def tinyResponse : List UInt8 :=
  ascii ("data: " ++ tinyEvent) ++ [carriageReturn, lineFeed, carriageReturn, lineFeed] ++
    ascii "data: [DONE]" ++ [lineFeed, lineFeed]

theorem receiveAll_eq_of_flatten_eq_tinyResponse :
    oneStreamingRequest tinyParse [tinyResponse] false = .ok 1 ∧
    oneStreamingRequest tinyParse (tinyResponse.map fun byte ↦ [byte]) false = .ok 1 := by
  have hsame : [tinyResponse].flatten = (tinyResponse.map fun byte ↦ [byte]).flatten := by
    decide +kernel
  have hwhole : oneStreamingRequest tinyParse [tinyResponse] false = .ok 1 := by decide +kernel
  obtain ⟨-, -, -, hresult, -⟩ := receiveAll_eq_of_flatten_eq tinyParse hsame
  exact ⟨hwhole, (hresult false).symm.trans hwhole⟩

end HotBatch.Bench
