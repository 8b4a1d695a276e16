import Mathlib.Data.List.DropRight

/-!
# Lossy UTF-8 decoding

`String::from_utf8_lossy` replaces every maximal invalid subpart of a byte string by one U+FFFD.
It is written here as an automaton that reads one byte at a time: between characters, or inside a
character with some continuation bytes still owed and a range for the next one. A byte outside the
range ends the subpart read so far and is then read again from the initial state.

Because the automaton only ever appends to its output, decoding a longer byte string can change
nothing but the single replacement character that stands for an unfinished subpart at the end.
-/

namespace HotBatch.Utf8

/-- U+FFFD, the replacement character. -/
def replacement : Char := '\uFFFD'

/-- Where the automaton stands between two bytes. -/
inductive Pending where
  | start
  /-- `owed + 1` continuation bytes are missing, the next one in `low … high`; `code` collects the
  bits read so far. -/
  | tail (owed : ℕ) (low high : UInt8) (code : ℕ)
  deriving DecidableEq, Repr

structure Decoder where
  out : List Char
  pending : Pending
  deriving DecidableEq, Repr

/-- Read a byte between characters. -/
def Decoder.first (out : List Char) (byte : UInt8) : Decoder :=
  if byte ≤ 0x7F then ⟨out ++ [Char.ofNat byte.toNat], .start⟩
  else if 0xC2 ≤ byte ∧ byte ≤ 0xDF then ⟨out, .tail 0 0x80 0xBF (byte.toNat - 0xC0)⟩
  else if byte = 0xE0 then ⟨out, .tail 1 0xA0 0xBF 0⟩
  else if byte = 0xED then ⟨out, .tail 1 0x80 0x9F 0x0D⟩
  else if 0xE1 ≤ byte ∧ byte ≤ 0xEF then ⟨out, .tail 1 0x80 0xBF (byte.toNat - 0xE0)⟩
  else if byte = 0xF0 then ⟨out, .tail 2 0x90 0xBF 0⟩
  else if 0xF1 ≤ byte ∧ byte ≤ 0xF3 then ⟨out, .tail 2 0x80 0xBF (byte.toNat - 0xF0)⟩
  else if byte = 0xF4 then ⟨out, .tail 2 0x80 0x8F 4⟩
  else ⟨out ++ [replacement], .start⟩

/-- Read one byte. -/
def Decoder.step (decoder : Decoder) (byte : UInt8) : Decoder :=
  match decoder.pending with
  | .start => .first decoder.out byte
  | .tail owed low high code =>
      if low ≤ byte ∧ byte ≤ high then
        let code := code * 64 + (byte.toNat - 0x80)
        match owed with
        | 0 => ⟨decoder.out ++ [Char.ofNat code], .start⟩
        | owed + 1 => ⟨decoder.out, .tail owed 0x80 0xBF code⟩
      else .first (decoder.out ++ [replacement]) byte

/-- Characters owed to an unfinished subpart when the input ends. -/
def Pending.flush : Pending → List Char
  | .start => []
  | .tail _ _ _ _ => [replacement]

def Decoder.run (bytes : List UInt8) : Decoder := bytes.foldl .step ⟨[], .start⟩

/-- `String::from_utf8_lossy`. -/
def fromUtf8Lossy (bytes : List UInt8) : List Char :=
  (Decoder.run bytes).out ++ (Decoder.run bytes).pending.flush

theorem Decoder.out_prefix_first (out : List Char) (byte : UInt8) :
    out <+: (Decoder.first out byte).out := by
  unfold Decoder.first
  split_ifs <;> simp

theorem Decoder.out_prefix_step (decoder : Decoder) (byte : UInt8) :
    decoder.out <+: (decoder.step byte).out := by
  unfold Decoder.step
  split
  · exact out_prefix_first _ _
  · split_ifs
    · split <;> simp
    · exact (List.prefix_append _ _).trans (out_prefix_first _ _)

/-- Reading more bytes only extends the output. -/
theorem Decoder.out_prefix_foldl (decoder : Decoder) (bytes : List UInt8) :
    decoder.out <+: (bytes.foldl .step decoder).out := by
  induction bytes generalizing decoder with
  | nil => exact List.prefix_rfl
  | cons byte bytes ih => exact (decoder.out_prefix_step byte).trans (ih _)

theorem Decoder.out_prefix_run_append (bytes more : List UInt8) :
    (Decoder.run bytes).out <+: (Decoder.run (bytes ++ more)).out := by
  unfold Decoder.run
  rw [List.foldl_append]
  exact out_prefix_foldl _ _

/-- Decoding more bytes keeps everything that was decoded, except possibly one final replacement
character. -/
theorem fromUtf8Lossy_append (bytes more : List UInt8) :
    ∃ kept, kept <+: fromUtf8Lossy (bytes ++ more) ∧
      (fromUtf8Lossy bytes = kept ∨ fromUtf8Lossy bytes = kept ++ [replacement]) := by
  refine ⟨(Decoder.run bytes).out, ?_, ?_⟩
  · exact (Decoder.out_prefix_run_append bytes more).trans (List.prefix_append _ _)
  · unfold fromUtf8Lossy
    cases (Decoder.run bytes).pending with
    | start => exact Or.inl (List.append_nil _)
    | tail owed low high code => exact Or.inr rfl

example : fromUtf8Lossy [0x66, 0xE2, 0x82, 0xAC, 0xF0, 0x9F, 0x41] =
    ['f', '€', replacement, 'A'] := by decide

/-! ## Trimming the undecided end -/

/-- `str::trim_end_matches('\u{fffd}')`. -/
def trimReplacement (text : List Char) : List Char :=
  text.rdropWhile (· == replacement)

theorem trimReplacement_starts (text : List Char) : trimReplacement text <+: text :=
  List.rdropWhile_prefix _ _

/-- Dropping a final replacement character first makes no difference to trimming. -/
theorem trimReplacement_append_replacement (text : List Char) :
    trimReplacement (text ++ [replacement]) = trimReplacement text :=
  List.rdropWhile_concat_pos _ _ _ (beq_self_eq_true _)

/-- Trimming is monotone: what trimming leaves of a prefix ends in an ordinary character, so it
cannot be cut into by trimming the longer text. -/
theorem trimReplacement_mono {shorter longer : List Char} (hstarts : shorter <+: longer) :
    trimReplacement shorter <+: trimReplacement longer := by
  by_cases hempty : trimReplacement shorter = []
  · rw [hempty]
    exact List.nil_prefix
  have hlast : ¬ ((trimReplacement shorter).getLast hempty == replacement) = true :=
    List.rdropWhile_last_not _ _ hempty
  have hboth : trimReplacement shorter <+: longer := (trimReplacement_starts shorter).trans hstarts
  rcases List.prefix_or_prefix_of_prefix hboth (trimReplacement_starts longer) with hle | hlt
  · exact hle
  -- Otherwise the removed end of `longer` contains the last character of the trimmed prefix.
  obtain ⟨cut, hcut⟩ := hlt
  by_cases hcutNil : cut = []
  · rw [hcutNil, List.append_nil] at hcut
    exact hcut ▸ List.prefix_rfl
  have hlastCut : (trimReplacement shorter).getLast hempty = cut.getLast hcutNil := by
    calc
      (trimReplacement shorter).getLast hempty =
          (trimReplacement longer ++ cut).getLast (by simp [hcutNil]) :=
        List.getLast_congr _ _ hcut.symm
      _ = cut.getLast hcutNil := List.getLast_append_of_ne_nil _ hcutNil
  have hremoved : cut <+: longer.rtakeWhile (· == replacement) := by
    obtain ⟨rest, hrest⟩ := hboth
    have hsplit : trimReplacement longer ++ longer.rtakeWhile (· == replacement) = longer :=
      List.rdropWhile_append_rtakeWhile
    refine ⟨rest, ?_⟩
    rw [← hcut, List.append_assoc] at hrest
    exact List.append_cancel_left (hrest.trans hsplit.symm)
  have hmem : cut.getLast hcutNil ∈ longer.rtakeWhile (· == replacement) :=
    hremoved.subset (List.getLast_mem hcutNil)
  rw [hlastCut] at hlast
  exact absurd (List.mem_rtakeWhile_imp hmem) hlast

/-- **Incremental decoding never retracts.** The trimmed decoding of some bytes is a prefix of the
decoding, and of the trimmed decoding, of any longer byte string. -/
theorem trimmed_prefix_append (bytes more : List UInt8) :
    trimReplacement (fromUtf8Lossy bytes) <+: fromUtf8Lossy (bytes ++ more) ∧
      trimReplacement (fromUtf8Lossy bytes) <+:
        trimReplacement (fromUtf8Lossy (bytes ++ more)) := by
  obtain ⟨kept, hkept, hdecoded⟩ := fromUtf8Lossy_append bytes more
  have htrim : trimReplacement (fromUtf8Lossy bytes) = trimReplacement kept := by
    rcases hdecoded with heq | heq
    · rw [heq]
    · rw [heq, trimReplacement_append_replacement]
  rw [htrim]
  exact ⟨(trimReplacement_starts kept).trans hkept, trimReplacement_mono hkept⟩

end HotBatch.Utf8
