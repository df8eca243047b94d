import RazorViews.Text.Utf8
import Mathlib.Tactic.Common

/-!
# Bytes are decoded to the text they encode

The first byte of a character announces how many follow and, at the borders of a length, the range
of the second one; `follow_tailByte` reads one byte behind it.  The four lengths of `encodeChar`
thus come back as the character they were made of (`step_encodeChar`), and a text comes back
character by character: `decode_encode`.

A text has no surrogates, so every text is encoded and comes back.  What bytes that encode no text
are decoded to, is not looked at here.

Files are also read with their line ends unified, which changes nothing in a text without carriage
returns (`unifyLineEnds_of_notMem`).
-/

namespace RazorViews.Utf8

variable {c : Char} {n unit value low high more : ℕ} {passed rest : List UInt8}

theorem toNat_ofNat {b : ℕ} (h : b < 0x100) : (UInt8.ofNat b).toNat = b :=
  UInt8.toNat_ofNat_of_lt h

theorem toNat_tailByte (n unit : ℕ) : (tailByte n unit).toNat = 0x80 + n / unit % 0x40 :=
  toNat_ofNat (by omega)

/-- A byte behind the first adds its six bits. -/
theorem follow_tailByte (hlow : low ≤ 0x80 + n / unit % 0x40)
    (hhigh : 0x80 + n / unit % 0x40 ≤ high) :
    follow value low high passed (more + 1) (tailByte n unit :: rest) =
      follow (value * 0x40 + n / unit % 0x40) 0x80 0xBF (tailByte n unit :: passed) more rest := by
  rw [follow, if_pos (by simp [toNat_tailByte, hlow, hhigh]), toNat_tailByte,
    Nat.add_sub_cancel_left]

theorem step_of_lead {b : ℕ} (hb : b < 0x100) (hlarge : 0x80 ≤ b)
    (h : lead? b = some ⟨more, value, low, high⟩) (rest : List UInt8) :
    step (UInt8.ofNat b) rest = follow value low high [UInt8.ofNat b] more rest := by
  rw [step, toNat_ofNat hb, if_neg (by omega), h]

/-- A character of two bytes. -/
theorem step_two (hleast : 0x80 ≤ n) (hn : n < 0x800) (rest : List UInt8) :
    step (UInt8.ofNat (0xC0 + n / 0x40)) (tailByte n 1 :: rest) = .char (Char.ofNat n) rest := by
  have hlead : lead? (0xC0 + n / 0x40) = some ⟨1, n / 0x40, 0x80, 0xBF⟩ := by
    rw [lead?, if_neg (by omega), if_pos (by omega), Nat.add_sub_cancel_left]
  rw [step_of_lead (by omega) (by omega) hlead, follow_tailByte (by omega) (by omega), follow]
  congr 2
  omega

/-- A character of three bytes.  Behind `E0` a shorter one and behind `ED` a surrogate is ruled
out. -/
theorem step_three (hleast : 0x800 ≤ n) (hn : n < 0x10000) (hvalid : n < 0xD800 ∨ 0xDFFF < n)
    (rest : List UInt8) :
    step (UInt8.ofNat (0xE0 + n / 0x1000)) (tailByte n 0x40 :: tailByte n 1 :: rest) =
      .char (Char.ofNat n) rest := by
  have hlead : lead? (0xE0 + n / 0x1000) = some ⟨2, n / 0x1000,
      if 0xE0 + n / 0x1000 = 0xE0 then 0xA0 else 0x80,
      if 0xE0 + n / 0x1000 = 0xED then 0x9F else 0xBF⟩ := by
    rw [lead?, if_neg (by omega), if_neg (by omega), if_pos (by omega), Nat.add_sub_cancel_left]
    simp only [beq_iff_eq]
  rw [step_of_lead (by omega) (by omega) hlead,
    follow_tailByte (by split <;> omega) (by split <;> omega),
    follow_tailByte (by omega) (by omega), follow]
  congr 2
  omega

/-- A character of four bytes.  Behind `F0` a shorter one and behind `F4` what is beyond the last
character is ruled out. -/
theorem step_four (hleast : 0x10000 ≤ n) (hn : n < 0x110000) (rest : List UInt8) :
    step (UInt8.ofNat (0xF0 + n / 0x40000))
      (tailByte n 0x1000 :: tailByte n 0x40 :: tailByte n 1 :: rest) =
        .char (Char.ofNat n) rest := by
  have hlead : lead? (0xF0 + n / 0x40000) = some ⟨3, n / 0x40000,
      if 0xF0 + n / 0x40000 = 0xF0 then 0x90 else 0x80,
      if 0xF0 + n / 0x40000 = 0xF4 then 0x8F else 0xBF⟩ := by
    rw [lead?, if_neg (by omega), if_neg (by omega), if_neg (by omega), if_pos (by omega),
      Nat.add_sub_cancel_left]
    simp only [beq_iff_eq]
  rw [step_of_lead (by omega) (by omega) hlead,
    follow_tailByte (by split <;> omega) (by split <;> omega),
    follow_tailByte (by omega) (by omega), follow_tailByte (by omega) (by omega), follow]
  congr 2
  omega

/-- The first step over the bytes of a character gives the character. -/
theorem step_encodeChar (c : Char) (rest : List UInt8) :
    ∃ b bytes, encodeChar c ++ rest = b :: bytes ∧ step b bytes = .char c rest := by
  have hvalid : c.toNat < 0xD800 ∨ 0xDFFF < c.toNat ∧ c.toNat < 0x110000 := c.valid
  have hofNat : Char.ofNat c.toNat = c := Char.ofNat_toNat c
  rw [encodeChar]
  split
  · rename_i hone
    refine ⟨_, _, rfl, ?_⟩
    rw [step, toNat_ofNat (by omega), if_pos hone, hofNat]
    rfl
  · split
    · exact ⟨_, _, rfl, (step_two (by omega) (by omega) rest).trans (by rw [hofNat])⟩
    · split
      · exact ⟨_, _, rfl, (step_three (by omega) (by omega) (by omega) rest).trans (by rw [hofNat])⟩
      · exact ⟨_, _, rfl, (step_four (by omega) (by omega) rest).trans (by rw [hofNat])⟩

theorem decodeFrom_cons {b : UInt8} {bytes : List UInt8} {t : Text} {position : ℕ}
    (h : step b bytes = .char c rest)
    (ht : decodeFrom (position + (encodeChar c).length) rest = .ok t) :
    decodeFrom position (b :: bytes) = .ok (c :: t) := by
  rw [decodeFrom]
  split
  · rename_i heq
    rw [h] at heq
    cases heq
    rw [ht]
  · rename_i heq
    rw [h] at heq
    cases heq

/-- The bytes of a text are decoded to the text. -/
theorem decode_encode (t : Text) : decode (encode t) = .ok t := by
  have hfrom (position : ℕ) : decodeFrom position (encode t) = .ok t := by
    induction t generalizing position with
    | nil => rw [encode, List.flatMap_nil, decodeFrom]
    | cons c t ih =>
      obtain ⟨b, bytes, hbytes, hstep⟩ := step_encodeChar c (encode t)
      rw [encode, List.flatMap_cons, ← encode, hbytes]
      exact decodeFrom_cons hstep (ih _)
  exact hfrom 0

/-- A text without carriage returns keeps its line ends. -/
theorem unifyLineEnds_of_notMem {t : Text} (h : '\r' ∉ t) : unifyLineEnds t = t := by
  induction t with
  | nil => rfl
  | cons c t ih =>
    rw [List.mem_cons, not_or] at h
    rw [unifyLineEnds, ih h.2, if_neg (by simpa using Ne.symm h.1)]
    rintro rest rfl
    exact absurd rfl h.1

end RazorViews.Utf8
