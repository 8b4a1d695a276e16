import HotBatch.Foundation.Utf8Lossy

/-!
# UTF-8 encoding

The bytes of a text, and that lossy decoding reads them back. A character of several bytes has no
byte below 128, so that whatever separates lines and frames in the bytes separates them in the text.
-/

namespace HotBatch.Utf8

/-- `str::as_bytes`. -/
def encode (text : List Char) : List UInt8 := text.flatMap String.utf8EncodeChar

@[simp]
theorem encode_append (front back : List Char) :
    encode (front ++ back) = encode front ++ encode back := List.flatMap_append

theorem encode_cons (c : Char) (rest : List Char) :
    encode (c :: rest) = String.utf8EncodeChar c ++ encode rest := List.flatMap_cons

/-- A byte below 128 is the whole character. -/
theorem eq_of_mem_utf8EncodeChar {c : Char} {byte : UInt8} (hmem : byte ∈ String.utf8EncodeChar c)
    (hascii : byte.toNat < 128) : c.toNat = byte.toNat := by
  have hmod : ∀ {n : ℕ}, n < 256 → (UInt8.ofNat n).toNat = n := fun hn ↦ Nat.mod_eq_of_lt hn
  unfold String.utf8EncodeChar at hmem
  dsimp only at hmem
  split_ifs at hmem with hone htwo hthree
  · rw [List.mem_singleton.mp hmem, hmod (by omega)]
    rfl
  all_goals
    simp only [List.mem_cons, List.not_mem_nil, or_false] at hmem
    rcases hmem with rfl | hmem
    · rw [hmod (by omega)] at hascii
      omega
  · rw [hmem, hmod (by omega)] at hascii
    omega
  · rcases hmem with rfl | rfl <;> rw [hmod (by omega)] at hascii <;> omega
  · rcases hmem with rfl | rfl | rfl <;> rw [hmod (by omega)] at hascii <;> omega

/-- A byte below 128 stands for its character only. -/
theorem mem_of_mem_encode {text : List Char} {byte : UInt8} (hmem : byte ∈ encode text)
    (hascii : byte.toNat < 128) : Char.ofNat byte.toNat ∈ text := by
  obtain ⟨c, hc, hbyte⟩ := List.mem_flatMap.mp hmem
  have hsame := eq_of_mem_utf8EncodeChar hbyte hascii
  rwa [← hsame, Char.ofNat_toNat]

/-! ## Reading back -/

/-- `Decoder.first` on a byte that is given by its number. -/
theorem first_ofNat (out : List Char) {n : ℕ} (hn : n < 256) :
    Decoder.first out (UInt8.ofNat n) =
      if n ≤ 0x7F then ⟨out ++ [Char.ofNat n], .start⟩
      else if 0xC2 ≤ n ∧ n ≤ 0xDF then ⟨out, .tail 0 0x80 0xBF (n - 0xC0)⟩
      else if n = 0xE0 then ⟨out, .tail 1 0xA0 0xBF 0⟩
      else if n = 0xED then ⟨out, .tail 1 0x80 0x9F 0x0D⟩
      else if 0xE1 ≤ n ∧ n ≤ 0xEF then ⟨out, .tail 1 0x80 0xBF (n - 0xE0)⟩
      else if n = 0xF0 then ⟨out, .tail 2 0x90 0xBF 0⟩
      else if 0xF1 ≤ n ∧ n ≤ 0xF3 then ⟨out, .tail 2 0x80 0xBF (n - 0xF0)⟩
      else if n = 0xF4 then ⟨out, .tail 2 0x80 0x8F 4⟩
      else ⟨out ++ [replacement], .start⟩ := by
  have hnat : (UInt8.ofNat n).toNat = n := Nat.mod_eq_of_lt hn
  have heq : ∀ m : UInt8, UInt8.ofNat n = m ↔ n = m.toNat := by
    intro m
    rw [← UInt8.toNat_inj, hnat]
  unfold Decoder.first
  simp only [UInt8.le_iff_toNat_le, heq, hnat]
  rfl

theorem in_range_ofNat {low high : UInt8} {n : ℕ} (hlow : low.toNat ≤ n) (hhigh : n ≤ high.toNat) :
    (low ≤ UInt8.ofNat n ∧ UInt8.ofNat n ≤ high) ∧ (UInt8.ofNat n).toNat = n := by
  have hnat : (UInt8.ofNat n).toNat = n := Nat.mod_eq_of_lt (hhigh.trans_lt high.toNat_lt)
  rw [UInt8.le_iff_toNat_le, UInt8.le_iff_toNat_le, hnat]
  exact ⟨⟨hlow, hhigh⟩, rfl⟩

/-- The last continuation byte. -/
theorem step_last (out : List Char) {low high : UInt8} (code : ℕ) {n : ℕ} (hlow : low.toNat ≤ n)
    (hhigh : n ≤ high.toNat) : Decoder.step ⟨out, .tail 0 low high code⟩ (UInt8.ofNat n) =
      ⟨out ++ [Char.ofNat (code * 64 + (n - 0x80))], .start⟩ := by
  obtain ⟨hrange, hnat⟩ := in_range_ofNat hlow hhigh
  unfold Decoder.step
  dsimp only
  rw [if_pos hrange, hnat]

/-- A continuation byte with others to come. -/
theorem step_more (out : List Char) (owed : ℕ) {low high : UInt8} (code : ℕ) {n : ℕ}
    (hlow : low.toNat ≤ n) (hhigh : n ≤ high.toNat) :
    Decoder.step ⟨out, .tail (owed + 1) low high code⟩ (UInt8.ofNat n) =
      ⟨out, .tail owed 0x80 0xBF (code * 64 + (n - 0x80))⟩ := by
  obtain ⟨hrange, hnat⟩ := in_range_ofNat hlow hhigh
  unfold Decoder.step
  dsimp only
  rw [if_pos hrange, hnat]

/-- Reading the bytes of a character puts it out. The cases are those of its first byte. -/
theorem foldl_utf8EncodeChar (out : List Char) (c : Char) :
    (String.utf8EncodeChar c).foldl Decoder.step ⟨out, .start⟩ = ⟨out ++ [c], .start⟩ := by
  have hvalid : c.val.toNat < 0xD800 ∨ 0xDFFF < c.val.toNat ∧ c.val.toNat < 0x110000 := c.valid
  have hstart : ∀ byte, Decoder.step ⟨out, .start⟩ byte = Decoder.first out byte := fun _ ↦ rfl
  have hchar : ∀ {n : ℕ}, n = c.val.toNat → Char.ofNat n = c := by
    rintro n rfl
    exact Char.ofNat_toNat c
  unfold String.utf8EncodeChar
  dsimp only
  generalize c.val.toNat = v at hvalid hchar ⊢
  split_ifs with hone htwo hthree
  · rw [List.foldl_cons, List.foldl_nil, hstart, first_ofNat out (by omega), if_pos hone, hchar rfl]
  · rw [List.foldl_cons, hstart, first_ofNat out (by omega), if_neg (by omega), if_pos (by omega),
      List.foldl_cons, step_last _ _ (by simp) (by simp; omega), List.foldl_nil, hchar (by omega)]
  · -- the range of the second byte depends on the first one, which shuts out surrogates
    have hrest : ∀ {low high : UInt8} {code : ℕ}, low.toNat ≤ v / 64 % 64 + 0x80 →
        v / 64 % 64 + 0x80 ≤ high.toNat → code = v / 4096 →
        [UInt8.ofNat (v / 64 % 64 + 0x80), UInt8.ofNat (v % 64 + 0x80)].foldl
          Decoder.step ⟨out, .tail 1 low high code⟩ = ⟨out ++ [c], .start⟩ := by
      intro low high code hlow hhigh hcode
      rw [List.foldl_cons, step_more _ _ _ hlow hhigh, List.foldl_cons, List.foldl_nil,
        step_last _ _ (by simp) (by simp; omega), hchar (by omega)]
    rw [List.foldl_cons, hstart, first_ofNat out (by omega), if_neg (by omega), if_neg (by omega)]
    by_cases hlowest : v < 0x1000
    · rw [if_pos (by omega)]
      exact hrest (by simp; omega) (by simp; omega) (by omega)
    by_cases hsurrogate : v / 4096 = 0x0D
    · rw [if_neg (by omega), if_pos (by omega)]
      exact hrest (by simp) (by simp; omega) (by omega)
    · rw [if_neg (by omega), if_neg (by omega), if_pos (by omega)]
      exact hrest (by simp) (by simp; omega) (by omega)
  · have hrest : ∀ {low high : UInt8} {code : ℕ}, low.toNat ≤ v / 4096 % 64 + 0x80 →
        v / 4096 % 64 + 0x80 ≤ high.toNat → code = v / 262144 →
        [UInt8.ofNat (v / 4096 % 64 + 0x80), UInt8.ofNat (v / 64 % 64 + 0x80),
          UInt8.ofNat (v % 64 + 0x80)].foldl
          Decoder.step ⟨out, .tail 2 low high code⟩ = ⟨out ++ [c], .start⟩ := by
      intro low high code hlow hhigh hcode
      rw [List.foldl_cons, step_more _ _ _ hlow hhigh, List.foldl_cons,
        step_more _ _ _ (by simp) (by simp; omega), List.foldl_cons, List.foldl_nil,
        step_last _ _ (by simp) (by simp; omega), hchar (by omega)]
    rw [List.foldl_cons, hstart, first_ofNat out (by omega), if_neg (by omega), if_neg (by omega),
      if_neg (by omega), if_neg (by omega), if_neg (by omega)]
    by_cases hlowest : v < 0x40000
    · rw [if_pos (by omega)]
      exact hrest (by simp; omega) (by simp; omega) (by omega)
    by_cases hhighest : v < 0x100000
    · rw [if_neg (by omega), if_pos (by omega)]
      exact hrest (by simp) (by simp; omega) (by omega)
    · rw [if_neg (by omega), if_neg (by omega), if_pos (by omega)]
      exact hrest (by simp) (by simp; omega) (by omega)

theorem foldl_encode (out text : List Char) :
    (encode text).foldl Decoder.step ⟨out, .start⟩ = ⟨out ++ text, .start⟩ := by
  induction text generalizing out with
  | nil => rw [List.append_nil]; rfl
  | cons c text ih =>
      rw [encode_cons, List.foldl_append, foldl_utf8EncodeChar, ih, List.append_assoc]
      rfl

/-- **Lossy decoding reads back what was encoded.** -/
theorem fromUtf8Lossy_encode (text : List Char) : fromUtf8Lossy (encode text) = text := by
  have hrun : Decoder.run (encode text) = ⟨text, .start⟩ := foldl_encode [] text
  unfold fromUtf8Lossy
  rw [hrun]
  exact List.append_nil text

end HotBatch.Utf8
