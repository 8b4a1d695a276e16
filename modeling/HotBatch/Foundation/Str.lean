import Mathlib.Algebra.GroupWithZero.Nat
import Mathlib.Data.List.Infix
import Mathlib.Order.MinMax
import Mathlib.Tactic.Cases

/-!
# Strings with byte offsets

A `str` is a sequence of characters that is addressed by byte offsets: searching returns a byte
offset, and a slice at an offset that is not on a character boundary panics. Strings are lists of
characters here, offsets are sums of UTF-8 lengths, and slicing returns `none` where the original
operation panics.

The lemmas translate every offset that the operations produce back into a prefix of the text, so
that no argument about offsets is needed outside this file.
-/

namespace HotBatch

/-- A string as the list of its characters. -/
abbrev Str := List Char

/-- `char::is_whitespace`, the `White_Space` property. -/
def isWhitespace (c : Char) : Bool :=
  let code := c.toNat
  decide (9 ≤ code ∧ code ≤ 13 ∨ code = 0x20 ∨ code = 0x85 ∨ code = 0xA0 ∨ code = 0x1680 ∨
    0x2000 ≤ code ∧ code ≤ 0x200A ∨ code = 0x2028 ∨ code = 0x2029 ∨ code = 0x202F ∨
    code = 0x205F ∨ code = 0x3000)

namespace Str

/-- `str::len`, in bytes. -/
def byteLen (text : Str) : ℕ := (text.map Char.utf8Size).sum

@[simp]
theorem byteLen_nil : byteLen [] = 0 := rfl

@[simp]
theorem byteLen_cons (c : Char) (text : Str) : byteLen (c :: text) = c.utf8Size + byteLen text := by
  simp [byteLen]

@[simp]
theorem byteLen_append (left right : Str) :
    byteLen (left ++ right) = byteLen left + byteLen right := by
  simp [byteLen]

@[simp]
theorem byteLen_eq_zero {text : Str} : byteLen text = 0 ↔ text = [] := by
  cases text with
  | nil => simp
  | cons c text =>
      have hpos := c.utf8Size_pos
      simp only [byteLen_cons, reduceCtorEq, iff_false]
      omega

theorem byteLen_le_of_starts {left right : Str} (hstarts : left <+: right) :
    byteLen left ≤ byteLen right := by
  obtain ⟨rest, rfl⟩ := hstarts
  simp

/-- Of two prefixes of one text, the one with fewer bytes is a prefix of the other. -/
theorem prefix_of_byteLen_le {text left right : Str} (hleft : left <+: text)
    (hright : right <+: text) (hle : byteLen left ≤ byteLen right) : left <+: right := by
  rcases List.prefix_or_prefix_of_prefix hleft hright with hstarts | ⟨rest, rfl⟩
  · exact hstarts
  · have hrest : rest = [] := by
      rw [byteLen_append] at hle
      exact byteLen_eq_zero.mp (by omega)
    rw [hrest, List.append_nil]

/-! ## Slices -/

/-- Split at a byte offset; `none` when the offset is out of range or inside a character. -/
def splitAtByte : Str → ℕ → Option (Str × Str)
  | text, 0 => some ([], text)
  | [], _ + 1 => none
  | c :: text, offset + 1 =>
      if c.utf8Size ≤ offset + 1 then
        (splitAtByte text (offset + 1 - c.utf8Size)).map fun parts ↦ (c :: parts.1, parts.2)
      else none

/-- `str::is_char_boundary`. -/
def isCharBoundary (text : Str) (offset : ℕ) : Bool := (splitAtByte text offset).isSome

/-- The slice `text[start..stop]`; `none` where it panics. -/
def slice (text : Str) (start stop : ℕ) : Option Str :=
  if start ≤ stop then
    (splitAtByte text stop).bind fun parts ↦ (splitAtByte parts.1 start).map Prod.snd
  else none

theorem splitAtByte_append (left right : Str) :
    splitAtByte (left ++ right) (byteLen left) = some (left, right) := by
  induction left with
  | nil => cases right <;> rfl
  | cons c left ih =>
      have hpos := c.utf8Size_pos
      obtain ⟨offset, hoffset⟩ : ∃ offset, byteLen (c :: left) = offset + 1 :=
        Nat.exists_eq_add_one_of_ne_zero (by rw [byteLen_cons]; omega)
      have hrest : offset + 1 - c.utf8Size = byteLen left := by
        rw [← hoffset, byteLen_cons]
        omega
      have hle : c.utf8Size ≤ offset + 1 := by
        rw [← hoffset, byteLen_cons]
        omega
      rw [hoffset, List.cons_append, splitAtByte, if_pos hle, hrest, ih]
      rfl

/-- A split is a decomposition of the text at the byte length of its first part. -/
theorem splitAtByte_eq_some {text left right : Str} {offset : ℕ} :
    splitAtByte text offset = some (left, right) ↔
      text = left ++ right ∧ byteLen left = offset := by
  constructor
  · intro hsplit
    induction text generalizing offset left with
    | nil =>
        cases offset with
        | zero =>
            simp only [splitAtByte, Option.some.injEq, Prod.mk.injEq] at hsplit
            obtain ⟨rfl, rfl⟩ := hsplit
            exact ⟨rfl, rfl⟩
        | succ offset => simp [splitAtByte] at hsplit
    | cons c text ih =>
        cases offset with
        | zero =>
            simp only [splitAtByte, Option.some.injEq, Prod.mk.injEq] at hsplit
            obtain ⟨rfl, rfl⟩ := hsplit
            exact ⟨rfl, rfl⟩
        | succ offset =>
            rw [splitAtByte] at hsplit
            by_cases hle : c.utf8Size ≤ offset + 1
            · rw [if_pos hle, Option.map_eq_some_iff] at hsplit
              obtain ⟨⟨before, after⟩, hrest, hparts⟩ := hsplit
              obtain ⟨rfl, rfl⟩ := Prod.mk.inj hparts
              obtain ⟨htext, hlen⟩ := ih hrest
              refine ⟨by rw [htext]; rfl, ?_⟩
              calc byteLen (c :: before) = c.utf8Size + byteLen before := byteLen_cons c before
                _ = c.utf8Size + (offset + 1 - c.utf8Size) := by rw [hlen]
                _ = offset + 1 := Nat.add_sub_cancel' hle
            · rw [if_neg hle] at hsplit
              cases hsplit
  · rintro ⟨rfl, rfl⟩
    exact splitAtByte_append left right

/-- A valid offset is the end of a prefix. -/
theorem isCharBoundary_iff {text : Str} {offset : ℕ} :
    isCharBoundary text offset = true ↔ ∃ left, left <+: text ∧ byteLen left = offset := by
  unfold isCharBoundary
  rw [Option.isSome_iff_exists]
  constructor
  · rintro ⟨⟨left, right⟩, hsplit⟩
    obtain ⟨rfl, hlen⟩ := splitAtByte_eq_some.mp hsplit
    exact ⟨left, List.prefix_append left right, hlen⟩
  · rintro ⟨left, ⟨right, rfl⟩, rfl⟩
    exact ⟨(left, right), splitAtByte_append left right⟩

theorem isCharBoundary_byteLen {text left : Str} (hstarts : left <+: text) :
    isCharBoundary text (byteLen left) = true := by
  obtain ⟨right, rfl⟩ := hstarts
  rw [isCharBoundary, splitAtByte_append]
  rfl

/-- A slice between two prefixes of the text is what the longer one adds to the shorter one. -/
theorem slice_byteLen {text left middle : Str} (hstarts : left ++ middle <+: text) :
    slice text (byteLen left) (byteLen (left ++ middle)) = some middle := by
  obtain ⟨right, rfl⟩ := hstarts
  unfold slice
  rw [if_pos (byteLen_le_of_starts (List.prefix_append left middle)), splitAtByte_append,
    Option.bind_some, splitAtByte_append]
  rfl

theorem slice_zero {text part : Str} (hstarts : part <+: text) :
    slice text 0 (byteLen part) = some part :=
  slice_byteLen (show [] ++ part <+: text from hstarts)

/-! ## Search -/

/-- `str::find` for a string pattern: the byte offset of the first occurrence. -/
def find (pattern : Str) : Str → Option ℕ
  | [] => if pattern = [] then some 0 else none
  | c :: text =>
      if pattern <+: c :: text then some 0 else (find pattern text).map (c.utf8Size + ·)

/-- The pattern occurs in the text right after `before`. -/
def OccursAfter (pattern text before : Str) : Prop := before ++ pattern <+: text

theorem exists_occursAfter_iff {pattern text : Str} :
    (∃ before, OccursAfter pattern text before) ↔ pattern <:+: text := by
  constructor
  · rintro ⟨before, after, hafter⟩
    exact ⟨before, after, hafter⟩
  · rintro ⟨before, after, hafter⟩
    exact ⟨before, after, hafter⟩

theorem occursAfter_cons {pattern text before : Str} {c d : Char} :
    OccursAfter pattern (c :: text) (d :: before) ↔ d = c ∧ OccursAfter pattern text before := by
  unfold OccursAfter
  rw [List.cons_append, List.cons_prefix_cons]

theorem find_eq_none {pattern text : Str} :
    find pattern text = none ↔ ¬ pattern <:+: text := by
  induction text with
  | nil => simp [find]
  | cons c text ih =>
      rw [find, List.infix_cons_iff]
      by_cases hstarts : pattern <+: c :: text
      · simp [hstarts]
      · simp [hstarts, ih]

/-- A found offset is the byte length of the part before the first occurrence. -/
theorem find_eq_some {pattern text : Str} {offset : ℕ} (hfind : find pattern text = some offset) :
    ∃ before, byteLen before = offset ∧ OccursAfter pattern text before ∧
      ∀ other, OccursAfter pattern text other → offset ≤ byteLen other := by
  induction text generalizing offset with
  | nil =>
      rw [find] at hfind
      split_ifs at hfind with hnil
      obtain rfl := Option.some.inj hfind
      refine ⟨[], rfl, ?_, fun _ _ ↦ Nat.zero_le _⟩
      rw [hnil]
      exact List.prefix_rfl
  | cons c text ih =>
      rw [find] at hfind
      split_ifs at hfind with hstarts
      · obtain rfl := Option.some.inj hfind
        exact ⟨[], rfl, hstarts, fun _ _ ↦ Nat.zero_le _⟩
      · obtain ⟨rest, hrest, rfl⟩ := Option.map_eq_some_iff.mp hfind
        obtain ⟨before, hlen, hoccurs, hfirst⟩ := ih hrest
        refine ⟨c :: before, by rw [byteLen_cons, hlen], occursAfter_cons.mpr ⟨rfl, hoccurs⟩, ?_⟩
        intro other hother
        cases other with
        | nil => exact absurd hother hstarts
        | cons d other =>
            obtain ⟨rfl, hotherRest⟩ := occursAfter_cons.mp hother
            have hle := hfirst other hotherRest
            rw [byteLen_cons]
            omega

/-! ## Character boundaries -/

/-- `str::char_indices`. -/
def charIndices (text : Str) : List (ℕ × Char) := go 0 text
where
  go (offset : ℕ) : Str → List (ℕ × Char)
    | [] => []
    | c :: text => (offset, c) :: go (offset + c.utf8Size) text

/-- The byte offsets at which `char_indices` starts a character are the lengths of the proper
prefixes of the text. -/
theorem mem_charIndices_go {offset target : ℕ} {text : Str} :
    target ∈ (charIndices.go offset text).map Prod.fst ↔
      ∃ before after, text = before ++ after ∧ after ≠ [] ∧ offset + byteLen before = target := by
  induction text generalizing offset with
  | nil =>
      simp only [charIndices.go, List.map_nil, List.not_mem_nil, false_iff, not_exists, not_and]
      intro before after hnil hafter _
      exact hafter (List.append_eq_nil_iff.mp hnil.symm).2
  | cons c text ih =>
      rw [charIndices.go, List.map_cons, List.mem_cons, ih]
      constructor
      · rintro (rfl | ⟨before, after, rfl, hafter, hlen⟩)
        · exact ⟨[], c :: text, rfl, List.cons_ne_nil _ _, Nat.add_zero _⟩
        · exact ⟨c :: before, after, rfl, hafter, by rw [byteLen_cons]; omega⟩
      · rintro ⟨before, after, htext, hafter, hlen⟩
        cases before with
        | nil => exact Or.inl (by simpa using hlen.symm)
        | cons d before =>
            rw [List.cons_append, List.cons.injEq] at htext
            refine Or.inr ⟨before, after, htext.2, hafter, ?_⟩
            rw [byteLen_cons, ← htext.1] at hlen
            omega

/-- Byte offsets of the ends of the non-empty prefixes of a text, as `char_indices` lists them. -/
def prefixEnds (text : Str) : List ℕ :=
  ((charIndices text).drop 1).map Prod.fst ++ [byteLen text]

theorem mem_prefixEnds {text : Str} (hne : text ≠ []) {target : ℕ} :
    target ∈ prefixEnds text ↔
      ∃ before, before ≠ [] ∧ before <+: text ∧ byteLen before = target := by
  obtain ⟨c, rest, rfl⟩ := List.exists_cons_of_ne_nil hne
  have hdrop : ((charIndices (c :: rest)).drop 1).map Prod.fst =
      (charIndices.go (0 + c.utf8Size) rest).map Prod.fst := rfl
  rw [prefixEnds, hdrop, List.mem_append, mem_charIndices_go, List.mem_singleton, Nat.zero_add]
  constructor
  · rintro (⟨before, after, rfl, -, hlen⟩ | rfl)
    · exact ⟨c :: before, List.cons_ne_nil _ _, ⟨after, rfl⟩, by rw [byteLen_cons, hlen]⟩
    · exact ⟨c :: rest, List.cons_ne_nil _ _, List.prefix_rfl, rfl⟩
  · rintro ⟨before, hbefore, ⟨after, hafter⟩, hlen⟩
    cases before with
    | nil => exact absurd rfl hbefore
    | cons d before =>
        rw [List.cons_append, List.cons.injEq] at hafter
        obtain ⟨rfl, hrest⟩ := hafter
        by_cases hnil : after = []
        · refine Or.inr ?_
          rw [← hlen, ← hrest, hnil, List.append_nil]
        · exact Or.inl ⟨before, after, hrest.symm, hnil, by rw [← hlen, byteLen_cons]⟩

end Str

end HotBatch
