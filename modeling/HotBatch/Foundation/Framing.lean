import Mathlib.Data.List.Basic

/-!
# Frames of a byte stream

A receiver appends every chunk that arrives to a buffer and splits off frames as long as the buffer
holds the end of one, handing each to a consumer that may stop it. What comes out depends on the
bytes only and not on how they were cut into chunks, provided that an end that is found in a buffer
is found at the same place in every longer one. Nothing gets lost: the frames with their delimiters
and the rest of the buffer are the bytes that have been taken.
-/

namespace HotBatch.Framing

variable {β σ : Type}

/-- Where the first frame of a buffer ends, and how long the delimiter after it is. -/
structure Delimiting (β : Type) where
  boundary : List β → Option (ℕ × ℕ)
  pos : ∀ {buffer : List β} {frameEnd delimiterLen : ℕ},
    boundary buffer = some (frameEnd, delimiterLen) → 0 < delimiterLen
  le_length : ∀ {buffer : List β} {frameEnd delimiterLen : ℕ},
    boundary buffer = some (frameEnd, delimiterLen) → frameEnd + delimiterLen ≤ buffer.length
  boundary_append : ∀ {buffer : List β} {found : ℕ × ℕ}, boundary buffer = some found →
    ∀ more, boundary (buffer ++ more) = some found

/-- What happens to the frames. -/
structure Consumer (β σ : Type) where
  consume : σ → List β → σ
  stopped : σ → Bool

structure Frame (β : Type) where
  content : List β
  delimiter : List β

def Frame.bytes (frame : Frame β) : List β := frame.content ++ frame.delimiter

/-- The end of the frame is where it is meant to be. -/
def Frame.Sound (delimiting : Delimiting β) (frame : Frame β) : Prop :=
  delimiting.boundary frame.bytes = some (frame.content.length, frame.delimiter.length)

/-- The buffer, the frames that have been split off, and the state of the consumer. -/
structure Receiver (β σ : Type) where
  buffer : List β
  frames : List (Frame β)
  state : σ

namespace Receiver

/-- The frames with their delimiters and what is left in the buffer. -/
def bytes (r : Receiver β σ) : List β := r.frames.flatMap Frame.bytes ++ r.buffer

/-- More bytes have arrived. -/
def extend (more : List β) (r : Receiver β σ) : Receiver β σ :=
  { r with buffer := r.buffer ++ more }

variable (delimiting : Delimiting β) (consumer : Consumer β σ)

/-- Split off one frame. -/
def takeFrame (frameEnd delimiterLen : ℕ) (r : Receiver β σ) : Receiver β σ where
  buffer := r.buffer.drop (frameEnd + delimiterLen)
  frames := r.frames ++
    [⟨r.buffer.take frameEnd, (r.buffer.drop frameEnd).take delimiterLen⟩]
  state := consumer.consume r.state (r.buffer.take frameEnd)

/-- The inner loop. -/
def drainLoop : ℕ → Receiver β σ → Receiver β σ
  | 0, r => r
  | fuel + 1, r =>
      if consumer.stopped r.state then r
      else
        match delimiting.boundary r.buffer with
        | none => r
        | some (frameEnd, delimiterLen) =>
            drainLoop fuel (r.takeFrame consumer frameEnd delimiterLen)

/-- Every frame takes at least its delimiter out of the buffer. -/
def drain (r : Receiver β σ) : Receiver β σ := drainLoop delimiting consumer r.buffer.length r

/-- A chunk arrives. -/
def receive (chunk : List β) (r : Receiver β σ) : Receiver β σ :=
  if consumer.stopped r.state then r else drain delimiting consumer (r.extend chunk)

def run (chunks : List (List β)) (r : Receiver β σ) : Receiver β σ :=
  chunks.foldl (fun r chunk ↦ receive delimiting consumer chunk r) r

section Drain

variable {delimiting : Delimiting β} {consumer : Consumer β σ} {r : Receiver β σ} {fuel : ℕ}

theorem drainLoop_of_stopped (hstopped : consumer.stopped r.state = true) :
    drainLoop delimiting consumer fuel r = r := by
  cases fuel with
  | zero => rfl
  | succ fuel => rw [drainLoop, if_pos hstopped]

theorem drainLoop_of_none (hnone : delimiting.boundary r.buffer = none) :
    drainLoop delimiting consumer fuel r = r := by
  cases fuel with
  | zero => rfl
  | succ fuel =>
      rw [drainLoop, hnone]
      split <;> rfl

theorem drainLoop_succ {frameEnd delimiterLen : ℕ} (hrunning : consumer.stopped r.state = false)
    (hfound : delimiting.boundary r.buffer = some (frameEnd, delimiterLen)) :
    drainLoop delimiting consumer (fuel + 1) r =
      drainLoop delimiting consumer fuel (r.takeFrame consumer frameEnd delimiterLen) := by
  rw [drainLoop, hrunning, if_neg Bool.false_ne_true, hfound]

theorem boundary_nil : delimiting.boundary [] = none := by
  cases hfound : delimiting.boundary [] with
  | none => rfl
  | some found =>
      have hpos := delimiting.pos hfound
      have hle := delimiting.le_length hfound
      rw [List.length_nil] at hle
      omega

theorem length_takeFrame {frameEnd delimiterLen : ℕ}
    (hfound : delimiting.boundary r.buffer = some (frameEnd, delimiterLen)) :
    (r.takeFrame consumer frameEnd delimiterLen).buffer.length < r.buffer.length := by
  have hpos := delimiting.pos hfound
  have hle := delimiting.le_length hfound
  rw [takeFrame, List.length_drop]
  omega

/-- Fuel for every byte of the buffer is enough. -/
theorem drainLoop_add (hfuel : r.buffer.length ≤ fuel) (more : ℕ) :
    drainLoop delimiting consumer (fuel + more) r = drainLoop delimiting consumer fuel r := by
  induction fuel generalizing r with
  | zero =>
      have hempty := List.length_eq_zero_iff.mp (Nat.le_zero.mp hfuel)
      rw [drainLoop_of_none (hempty ▸ boundary_nil), drainLoop_of_none (hempty ▸ boundary_nil)]
  | succ fuel ih =>
      cases hstopped : consumer.stopped r.state with
      | true => rw [drainLoop_of_stopped hstopped, drainLoop_of_stopped hstopped]
      | false =>
          cases hfound : delimiting.boundary r.buffer with
          | none => rw [drainLoop_of_none hfound, drainLoop_of_none hfound]
          | some found =>
              have hshorter : (r.takeFrame consumer _ _).buffer.length < r.buffer.length :=
                length_takeFrame hfound
              rw [Nat.add_right_comm, drainLoop_succ hstopped hfound, drainLoop_succ hstopped hfound]
              exact ih (by omega)

theorem drain_of_stopped (hstopped : consumer.stopped r.state = true) :
    drain delimiting consumer r = r := drainLoop_of_stopped hstopped

theorem drain_of_none (hnone : delimiting.boundary r.buffer = none) :
    drain delimiting consumer r = r := drainLoop_of_none hnone

theorem drain_of_some {frameEnd delimiterLen : ℕ} (hrunning : consumer.stopped r.state = false)
    (hfound : delimiting.boundary r.buffer = some (frameEnd, delimiterLen)) :
    drain delimiting consumer r =
      drain delimiting consumer (r.takeFrame consumer frameEnd delimiterLen) := by
  have hshorter : (r.takeFrame consumer frameEnd delimiterLen).buffer.length < r.buffer.length :=
    length_takeFrame hfound
  obtain ⟨more, hmore⟩ := Nat.exists_eq_add_of_lt hshorter
  rw [drain, hmore, drainLoop_succ hrunning hfound, drainLoop_add (Nat.le_refl _), drain]

/-- One case for each way the inner loop can go on. -/
theorem drain_induction {motive : Receiver β σ → Prop}
    (stopped : ∀ r, consumer.stopped r.state = true → motive r)
    (none : ∀ r, delimiting.boundary r.buffer = none → motive r)
    (some : ∀ r frameEnd delimiterLen, consumer.stopped r.state = false →
      delimiting.boundary r.buffer = some (frameEnd, delimiterLen) →
      motive (r.takeFrame consumer frameEnd delimiterLen) → motive r)
    (r : Receiver β σ) : motive r := by
  induction hlength : r.buffer.length using Nat.strongRecOn generalizing r with
  | _ length ih =>
      cases hstopped : consumer.stopped r.state with
      | true => exact stopped r hstopped
      | false =>
          cases hfound : delimiting.boundary r.buffer with
          | none => exact none r hfound
          | some found =>
              exact some r found.1 found.2 hstopped hfound
                (ih _ (hlength ▸ length_takeFrame hfound) _ rfl)

/-- What remains after draining has no further frame, or nobody wants it. -/
theorem drain_drain :
    drain delimiting consumer (drain delimiting consumer r) = drain delimiting consumer r := by
  induction r using @drain_induction _ _ delimiting consumer with
  | stopped r hstopped => rw [drain_of_stopped hstopped, drain_of_stopped hstopped]
  | none r hnone => rw [drain_of_none hnone, drain_of_none hnone]
  | some r frameEnd delimiterLen hrunning hfound ih => rwa [drain_of_some hrunning hfound]

/-! ### Nothing gets lost -/

theorem bytes_takeFrame (frameEnd delimiterLen : ℕ) :
    (r.takeFrame consumer frameEnd delimiterLen).bytes = r.bytes := by
  simp only [bytes, takeFrame, List.flatMap_append, List.flatMap_singleton, Frame.bytes,
    List.append_assoc]
  rw [← List.drop_drop, List.take_append_drop, List.take_append_drop]

/-- At every point of the inner loop. -/
theorem bytes_drainLoop : (drainLoop delimiting consumer fuel r).bytes = r.bytes := by
  induction fuel generalizing r with
  | zero => rfl
  | succ fuel ih =>
      rw [drainLoop]
      split
      · rfl
      · split
        · rfl
        · rw [ih, bytes_takeFrame]

theorem bytes_receive (hrunning : consumer.stopped r.state = false) (chunk : List β) :
    (receive delimiting consumer chunk r).bytes = r.bytes ++ chunk := by
  rw [receive, hrunning, if_neg Bool.false_ne_true, drain, bytes_drainLoop]
  exact (List.append_assoc _ _ _).symm

theorem receive_of_stopped (hstopped : consumer.stopped r.state = true) (chunk : List β) :
    receive delimiting consumer chunk r = r := if_pos hstopped

theorem run_of_stopped (hstopped : consumer.stopped r.state = true) (chunks : List (List β)) :
    run delimiting consumer chunks r = r := by
  induction chunks with
  | nil => rfl
  | cons chunk chunks ih =>
      rw [run, List.foldl_cons, receive_of_stopped hstopped, ← run, ih]

/-- **The frames with their delimiters and the buffer are the bytes that have been taken**, up to the
chunk with which the consumer has stopped. -/
theorem bytes_run (chunks : List (List β)) (r : Receiver β σ) :
    ∃ taken rest, chunks = taken ++ rest ∧
      (run delimiting consumer chunks r).bytes = r.bytes ++ taken.flatten ∧
      (rest ≠ [] → consumer.stopped (run delimiting consumer chunks r).state = true) := by
  induction chunks generalizing r with
  | nil => exact ⟨[], [], rfl, (List.append_nil _).symm, fun hrest ↦ absurd rfl hrest⟩
  | cons chunk chunks ih =>
      cases hstopped : consumer.stopped r.state with
      | true =>
          rw [run_of_stopped hstopped]
          exact ⟨[], chunk :: chunks, rfl, (List.append_nil _).symm, fun _ ↦ hstopped⟩
      | false =>
          obtain ⟨taken, rest, hchunks, hbytes, hrest⟩ := ih (receive delimiting consumer chunk r)
          refine ⟨chunk :: taken, rest, congrArg (chunk :: ·) hchunks, ?_, hrest⟩
          rw [List.flatten_cons, ← List.append_assoc, ← bytes_receive hstopped]
          exact hbytes

/-! ### What the consumer has seen -/

/-- The state is that of a consumer which has been given the frames one by one and has been stopped by
none but the last. -/
structure Consumed (consumer : Consumer β σ) (start : σ) (r : Receiver β σ) : Prop where
  state_eq : r.state = (r.frames.map Frame.content).foldl consumer.consume start
  running : ∀ earlier later, r.frames = earlier ++ later → later ≠ [] →
    consumer.stopped ((earlier.map Frame.content).foldl consumer.consume start) = false

theorem consumed_takeFrame {start : σ} (hconsumed : Consumed consumer start r)
    (hrunning : consumer.stopped r.state = false) (frameEnd delimiterLen : ℕ) :
    Consumed consumer start (r.takeFrame consumer frameEnd delimiterLen) := by
  constructor
  · simp only [takeFrame, List.map_append, List.foldl_append, hconsumed.state_eq]
    rfl
  · intro earlier later hframes hlater
    obtain ⟨front, last, rfl⟩ := (List.eq_nil_or_concat later).resolve_left hlater
    rw [takeFrame, List.concat_eq_append, ← List.append_assoc] at hframes
    obtain ⟨hfront, -⟩ := List.append_inj' hframes rfl
    by_cases hempty : front = []
    · rw [hempty, List.append_nil] at hfront
      rw [← hfront, ← hconsumed.state_eq]
      exact hrunning
    · exact hconsumed.running earlier front hfront hempty

/-- A property that every splitting keeps holds after a run. -/
theorem run_invariant {invariant : Receiver β σ → Prop}
    (hextend : ∀ r more, invariant r → invariant (r.extend more))
    (htake : ∀ r frameEnd delimiterLen, consumer.stopped r.state = false →
      delimiting.boundary r.buffer = some (frameEnd, delimiterLen) → invariant r →
      invariant (r.takeFrame consumer frameEnd delimiterLen))
    (chunks : List (List β)) {r : Receiver β σ} (hstart : invariant r) :
    invariant (run delimiting consumer chunks r) := by
  have hdrain : ∀ r : Receiver β σ, invariant r → invariant (drain delimiting consumer r) := by
    intro r
    induction r using @drain_induction _ _ delimiting consumer with
    | stopped r hstopped => exact fun hinv ↦ (drain_of_stopped hstopped).symm ▸ hinv
    | none r hnone => exact fun hinv ↦ (drain_of_none hnone).symm ▸ hinv
    | some r frameEnd delimiterLen hrunning hfound ih =>
        intro hinv
        rw [drain_of_some hrunning hfound]
        exact ih (htake r frameEnd delimiterLen hrunning hfound hinv)
  induction chunks generalizing r with
  | nil => exact hstart
  | cons chunk chunks ih =>
      have hreceived : invariant (receive delimiting consumer chunk r) := by
        unfold receive
        split
        · exact hstart
        · exact hdrain _ (hextend _ _ hstart)
      exact ih hreceived

theorem consumed_run {start : σ} (chunks : List (List β)) (hconsumed : Consumed consumer start r) :
    Consumed consumer start (run delimiting consumer chunks r) := by
  refine run_invariant (fun r more hconsumed ↦ ⟨hconsumed.state_eq, hconsumed.running⟩) ?_ chunks
    hconsumed
  intro r frameEnd delimiterLen hrunning _ hconsumed
  exact consumed_takeFrame hconsumed hrunning frameEnd delimiterLen

end Drain

/-! ### Chunks do not matter -/

/-- The same frames and the same state, and the same rest as long as it matters. -/
structure Agrees (consumer : Consumer β σ) (left right : Receiver β σ) : Prop where
  frames_eq : left.frames = right.frames
  state_eq : left.state = right.state
  buffer_eq : consumer.stopped left.state = false → left.buffer = right.buffer

section Agrees

variable {delimiting : Delimiting β} {consumer : Consumer β σ} {left right third r : Receiver β σ}

theorem Agrees.refl (consumer : Consumer β σ) (r : Receiver β σ) : Agrees consumer r r :=
  ⟨rfl, rfl, fun _ ↦ rfl⟩

theorem Agrees.symm (hagrees : Agrees consumer left right) : Agrees consumer right left :=
  ⟨hagrees.frames_eq.symm, hagrees.state_eq.symm,
    fun hrunning ↦ (hagrees.buffer_eq (hagrees.state_eq ▸ hrunning)).symm⟩

theorem Agrees.trans (hleft : Agrees consumer left right) (hright : Agrees consumer right third) :
    Agrees consumer left third :=
  ⟨hleft.frames_eq.trans hright.frames_eq, hleft.state_eq.trans hright.state_eq, fun hrunning ↦
    (hleft.buffer_eq hrunning).trans (hright.buffer_eq (hleft.state_eq ▸ hrunning))⟩

/-- A receiver that has stopped does not look at what arrives. -/
theorem agrees_extend (hstopped : consumer.stopped r.state = true) (more : List β) :
    Agrees consumer (r.extend more) r :=
  ⟨rfl, rfl, fun hrunning ↦ absurd (hstopped.symm.trans hrunning) Bool.noConfusion⟩

/-- The end of a frame is where it was after more bytes have arrived. -/
theorem takeFrame_extend {frameEnd delimiterLen : ℕ}
    (hfound : delimiting.boundary r.buffer = some (frameEnd, delimiterLen)) (more : List β) :
    (r.extend more).takeFrame consumer frameEnd delimiterLen =
      (r.takeFrame consumer frameEnd delimiterLen).extend more := by
  have hle := delimiting.le_length hfound
  have htake : (r.buffer ++ more).take frameEnd = r.buffer.take frameEnd :=
    List.take_append_of_le_length (by omega)
  have hdelimiter : ((r.buffer ++ more).drop frameEnd).take delimiterLen =
      (r.buffer.drop frameEnd).take delimiterLen := by
    rw [List.drop_append_of_le_length (by omega), List.take_append_of_le_length]
    rw [List.length_drop]
    omega
  have hdrop : (r.buffer ++ more).drop (frameEnd + delimiterLen) =
      r.buffer.drop (frameEnd + delimiterLen) ++ more := List.drop_append_of_le_length hle
  simp only [takeFrame, extend, htake, hdelimiter, hdrop]

/-- Draining goes on after more bytes have arrived where it has stopped before. -/
theorem drain_extend_drain (more : List β) (r : Receiver β σ) :
    drain delimiting consumer ((drain delimiting consumer r).extend more) =
      drain delimiting consumer (r.extend more) := by
  induction r using @drain_induction _ _ delimiting consumer with
  | stopped r hstopped => rw [drain_of_stopped hstopped]
  | none r hnone => rw [drain_of_none hnone]
  | some r frameEnd delimiterLen hrunning hfound ih =>
      have hextended : delimiting.boundary (r.extend more).buffer =
          some (frameEnd, delimiterLen) := delimiting.boundary_append hfound more
      have hstill : consumer.stopped (r.extend more).state = false := hrunning
      rw [drain_of_some hrunning hfound, ih, ← takeFrame_extend hfound]
      exact (drain_of_some hstill hextended).symm

/-- Two chunks are as good as one. -/
theorem receive_append (first second : List β) (r : Receiver β σ) :
    Agrees consumer (receive delimiting consumer second (receive delimiting consumer first r))
      (receive delimiting consumer (first ++ second) r) := by
  cases hstopped : consumer.stopped r.state with
  | true =>
      rw [receive_of_stopped hstopped, receive_of_stopped hstopped, receive_of_stopped hstopped]
      exact .refl consumer r
  | false =>
      have hreceive (chunk : List β) : receive delimiting consumer chunk r =
          drain delimiting consumer (r.extend chunk) := by
        rw [receive, hstopped, if_neg Bool.false_ne_true]
      have hwhole : receive delimiting consumer (first ++ second) r =
          drain delimiting consumer ((receive delimiting consumer first r).extend second) := by
        rw [hreceive, hreceive, drain_extend_drain]
        simp only [extend, List.append_assoc]
      rw [hwhole]
      cases hlater : consumer.stopped (receive delimiting consumer first r).state with
      | true =>
          have hstill : consumer.stopped
              ((receive delimiting consumer first r).extend second).state = true := hlater
          rw [receive_of_stopped hlater, drain_of_stopped hstill]
          exact (agrees_extend hlater second).symm
      | false =>
          rw [receive, hlater, if_neg Bool.false_ne_true]
          exact .refl consumer _

/-- Any number of chunks are as good as one. -/
theorem run_agrees_receive (chunks : List (List β))
    (hdrained : drain delimiting consumer r = r) :
    Agrees consumer (run delimiting consumer chunks r)
      (receive delimiting consumer chunks.flatten r) := by
  induction chunks generalizing r with
  | nil =>
      have hnothing : receive delimiting consumer [] r = r := by
        have hextend : r.extend [] = r := by rw [extend, List.append_nil]
        rw [receive, hextend, hdrained]
        split <;> rfl
      rw [List.flatten_nil, hnothing]
      exact .refl consumer r
  | cons chunk chunks ih =>
      have hreceived : drain delimiting consumer (receive delimiting consumer chunk r) =
          receive delimiting consumer chunk r := by
        unfold receive
        split
        · exact hdrained
        · exact drain_drain
      exact (ih hreceived).trans (receive_append chunk chunks.flatten r)

/-- **What comes out depends on the bytes only.** -/
theorem run_agrees_of_flatten_eq {first second : List (List β)}
    (hsame : first.flatten = second.flatten) (hdrained : drain delimiting consumer r = r) :
    Agrees consumer (run delimiting consumer first r) (run delimiting consumer second r) := by
  have hfirst := run_agrees_receive first hdrained
  rw [hsame] at hfirst
  exact hfirst.trans (run_agrees_receive second hdrained).symm

end Agrees

/-! ### Encoded frames -/

section Encoded

variable {delimiting : Delimiting β} {consumer : Consumer β σ} {r : Receiver β σ}

/-- The consumer is given frames until it stops. -/
def feed (consumer : Consumer β σ) (state : σ) (contents : List (List β)) : σ :=
  contents.foldl (fun state content ↦
    if consumer.stopped state then state else consumer.consume state content) state

theorem feed_of_stopped {state : σ} (hstopped : consumer.stopped state = true)
    (contents : List (List β)) : feed consumer state contents = state := by
  induction contents with
  | nil => rfl
  | cons content contents ih =>
      rw [feed, List.foldl_cons, if_pos hstopped]
      exact ih

/-- Once it has stopped, what follows does not matter. -/
theorem feed_append_of_stopped {state : σ} {front : List (List β)}
    (hstopped : consumer.stopped (feed consumer state front) = true) (more : List (List β)) :
    feed consumer state (front ++ more) = feed consumer state front := by
  unfold feed at hstopped ⊢
  rw [List.foldl_append]
  exact feed_of_stopped hstopped more

theorem feed_cons {state : σ} (hrunning : consumer.stopped state = false) (content : List β)
    (contents : List (List β)) :
    feed consumer state (content :: contents) =
      feed consumer (consumer.consume state content) contents := by
  rw [feed, List.foldl_cons, hrunning, if_neg Bool.false_ne_true]
  rfl

/-- A frame whose bytes have not all arrived is not found. -/
theorem boundary_of_incomplete {frame : Frame β} (hsound : frame.Sound delimiting)
    {bytes : List β} (hstart : bytes <+: frame.bytes) (hshort : bytes.length < frame.bytes.length) :
    delimiting.boundary bytes = none := by
  cases hfound : delimiting.boundary bytes with
  | none => rfl
  | some found =>
      obtain ⟨more, hmore⟩ := hstart
      have hwhole := delimiting.boundary_append hfound more
      rw [hmore, hsound] at hwhole
      obtain rfl := Option.some.inj hwhole
      have hle := delimiting.le_length hfound
      rw [Frame.bytes, List.length_append] at hshort
      omega

/-- **Draining recovers the frames that were encoded**, as many as have arrived in full. -/
theorem drain_encoded {frames : List (Frame β)} (hsound : ∀ frame ∈ frames, frame.Sound delimiting)
    (hstart : r.buffer <+: frames.flatMap Frame.bytes) :
    ∃ earlier later, frames = earlier ++ later ∧
      (drain delimiting consumer r).state = feed consumer r.state (earlier.map Frame.content) ∧
      (r.buffer = frames.flatMap Frame.bytes → later = []) := by
  induction frames generalizing r with
  | nil =>
      have hnone : delimiting.boundary r.buffer = none := by
        rw [List.prefix_nil.mp hstart]
        exact boundary_nil
      exact ⟨[], [], rfl, by rw [drain_of_none hnone]; rfl, fun _ ↦ rfl⟩
  | cons frame frames ih =>
      have hfirst := hsound frame List.mem_cons_self
      rw [List.flatMap_cons] at hstart ⊢
      cases hstopped : consumer.stopped r.state with
      | true =>
          refine ⟨frame :: frames, [], (List.append_nil _).symm, ?_, fun _ ↦ rfl⟩
          rw [drain_of_stopped hstopped, feed_of_stopped hstopped]
      | false =>
          rcases Nat.lt_or_ge r.buffer.length frame.bytes.length with hshort | hlong
          · have hpart := List.prefix_of_prefix_length_le hstart
              (List.prefix_append frame.bytes _) (Nat.le_of_lt hshort)
            have hnone := boundary_of_incomplete hfirst hpart hshort
            refine ⟨[], frame :: frames, rfl, by rw [drain_of_none hnone]; rfl, fun hall ↦ ?_⟩
            rw [hall, List.length_append] at hshort
            omega
          · obtain ⟨rest, hrest⟩ := List.prefix_of_prefix_length_le
              (List.prefix_append frame.bytes _) hstart hlong
            have hfound : delimiting.boundary r.buffer =
                some (frame.content.length, frame.delimiter.length) := by
              rw [← hrest]
              exact delimiting.boundary_append hfirst rest
            have htaken : r.buffer.take frame.content.length = frame.content := by
              rw [← hrest, Frame.bytes, List.append_assoc, List.take_left']
              rfl
            have hleft : (r.takeFrame consumer frame.content.length frame.delimiter.length).buffer =
                rest := by
              rw [takeFrame, ← hrest]
              exact List.drop_left' List.length_append
            rw [← hrest, List.prefix_append_right_inj] at hstart
            obtain ⟨earlier, later, hframes, hstate, hall⟩ :=
              ih (r := r.takeFrame consumer frame.content.length frame.delimiter.length)
                (fun other hother ↦ hsound other (List.mem_cons_of_mem _ hother))
                (hleft.symm ▸ hstart)
            refine ⟨frame :: earlier, later, congrArg (frame :: ·) hframes, ?_, fun hwhole ↦ ?_⟩
            · rw [drain_of_some hstopped hfound, hstate, List.map_cons, feed_cons hstopped]
              rw [takeFrame, htaken]
            · apply hall
              rw [hleft]
              rw [← hrest] at hwhole
              exact List.append_cancel_left hwhole

/-- **A consumer is given the frames that were encoded, however their bytes arrive**: all of them
when everything has arrived, and otherwise a first part of them. -/
theorem run_encoded {frames : List (Frame β)} (hsound : ∀ frame ∈ frames, frame.Sound delimiting)
    {chunks : List (List β)} (hstart : chunks.flatten <+: frames.flatMap Frame.bytes) (state : σ) :
    ∃ earlier later, frames = earlier ++ later ∧
      (run delimiting consumer chunks ⟨[], [], state⟩).state =
        feed consumer state (earlier.map Frame.content) ∧
      (chunks.flatten = frames.flatMap Frame.bytes → later = []) := by
  have hempty : drain delimiting consumer (⟨[], [], state⟩ : Receiver β σ) = ⟨[], [], state⟩ :=
    drain_of_none boundary_nil
  rw [(run_agrees_receive chunks hempty).state_eq]
  cases hstopped : consumer.stopped state with
  | true =>
      refine ⟨frames, [], (List.append_nil _).symm, ?_, fun _ ↦ rfl⟩
      rw [receive_of_stopped hstopped, feed_of_stopped hstopped]
  | false =>
      rw [receive, hstopped, if_neg Bool.false_ne_true]
      exact drain_encoded hsound hstart

end Encoded

end Receiver

end HotBatch.Framing
