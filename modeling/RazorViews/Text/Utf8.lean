import RazorViews.Text.Basic

/-!
Texts as bytes in UTF-8.

Decoding stops at the shortest stretch of bytes that no character can begin with, or goes on behind
it with a replacement character in its place, as the reader asks for.
-/

namespace RazorViews.Utf8

/-! ## Encoding -/

/-- A byte behind the first: six bits of a character, of which the lowest counts `unit`. -/
def tailByte (n unit : Nat) : UInt8 := UInt8.ofNat (0x80 + n / unit % 0x40)

def encodeChar (c : Char) : List UInt8 :=
  let n := c.toNat
  if n < 0x80 then [UInt8.ofNat n]
  else if n < 0x800 then [UInt8.ofNat (0xC0 + n / 0x40), tailByte n 1]
  else if n < 0x10000 then
    [UInt8.ofNat (0xE0 + n / 0x1000), tailByte n 0x40, tailByte n 1]
  else
    [UInt8.ofNat (0xF0 + n / 0x40000), tailByte n 0x1000, tailByte n 0x40, tailByte n 1]

def encode (t : Text) : List UInt8 := t.flatMap encodeChar

/-- How many bytes a text takes. -/
def size (t : Text) : Nat := (encode t).length

/-! ## Decoding -/

/-- What is wrong with a stretch of bytes. -/
inductive Reason where
  | badStart
  | badContinuation
  | endOfData
deriving DecidableEq, Repr

def Reason.text : Reason → String
  | badStart => "invalid start byte"
  | badContinuation => "invalid continuation byte"
  | endOfData => "unexpected end of data"

/-- The first character of some bytes, or the stretch that keeps them from beginning with one. -/
inductive Step where
  | char (c : Char) (rest : List UInt8)
  | defect (reason : Reason) (stretch rest : List UInt8)
deriving Repr

/-- What a first byte announces: how many bytes follow, the bits it gives itself, and the range of
the byte behind it. -/
structure Lead where
  more : Nat
  bits : Nat
  low : Nat
  high : Nat

/-- What a byte announces as the first of a character beyond ASCII. -/
def lead? (b : Nat) : Option Lead :=
  if b < 0xC2 then none
  else if b < 0xE0 then some ⟨1, b - 0xC0, 0x80, 0xBF⟩
  else if b < 0xF0 then
    some ⟨2, b - 0xE0, if b == 0xE0 then 0xA0 else 0x80, if b == 0xED then 0x9F else 0xBF⟩
  else if b < 0xF5 then
    some ⟨3, b - 0xF0, if b == 0xF0 then 0x90 else 0x80, if b == 0xF4 then 0x8F else 0xBF⟩
  else none

/-- Reads the bytes behind a first byte; `passed` holds those already read, latest first. -/
def follow (value low high : Nat) (passed : List UInt8) : (more : Nat) → List UInt8 → Step
  | 0, rest => .char (Char.ofNat value) rest
  | _ + 1, [] => .defect .endOfData passed.reverse []
  | more + 1, b :: rest =>
    if low ≤ b.toNat && b.toNat ≤ high then
      follow (value * 0x40 + (b.toNat - 0x80)) 0x80 0xBF (b :: passed) more rest
    else .defect .badContinuation passed.reverse (b :: rest)

/-- Reads the first character of some bytes. -/
def step (b : UInt8) (rest : List UInt8) : Step :=
  if b.toNat < 0x80 then .char (Char.ofNat b.toNat) rest
  else
    match lead? b.toNat with
    | none => .defect .badStart [b] rest
    | some l => follow l.bits l.low l.high [b] l.more rest

def Step.rest : Step → List UInt8
  | .char _ rest => rest
  | .defect _ _ rest => rest

/-- The bytes behind a character come from the bytes that follow its first. -/
theorem length_rest_follow (value low high : Nat) (passed : List UInt8) (more : Nat)
    (bytes : List UInt8) :
    (follow value low high passed more bytes).rest.length ≤ bytes.length := by
  fun_induction follow value low high passed more bytes <;> simp_all [Step.rest]
  omega

/-- Every step takes at least one byte. -/
theorem length_rest_step (b : UInt8) (rest : List UInt8) :
    (step b rest).rest.length ≤ rest.length := by
  unfold step
  split
  · simp [Step.rest]
  · split
    · simp [Step.rest]
    · exact length_rest_follow ..

/-- A stretch of bytes that is no text, and where it begins. -/
structure Defect where
  position : Nat
  stretch : List UInt8
  reason : Reason
deriving DecidableEq, Repr

/-- Two hexadecimal digits. -/
def hexByte (b : UInt8) : Text :=
  [b.toNat / 16, b.toNat % 16].map fun d => (Nat.toDigits 16 d).headD '0'

def Defect.text (d : Defect) : Text :=
  let place := match d.stretch with
    | [b] => "byte 0x".toList ++ hexByte b ++ " in position ".toList ++ Text.ofNat d.position
    | bytes => "bytes in position ".toList ++ Text.ofNat d.position ++ '-' ::
        Text.ofNat (d.position + bytes.length - 1)
  "'utf-8' codec can't decode ".toList ++ place ++ ": ".toList ++ d.reason.text.toList

/-- Decodes bytes, the first of which stands at a position; stops at the first defect. -/
def decodeFrom (position : Nat) : List UInt8 → Except Defect Text
  | [] => .ok []
  | b :: bytes =>
    match _h : step b bytes with
    | .char c rest =>
      match decodeFrom (position + (encodeChar c).length) rest with
      | .ok t => .ok (c :: t)
      | .error d => .error d
    | .defect reason stretch _ => .error ⟨position, stretch, reason⟩
termination_by bytes => bytes.length
decreasing_by
  have := length_rest_step b bytes
  rw [_h, Step.rest] at this
  simp only [List.length_cons]
  omega

def decode (bytes : List UInt8) : Except Defect Text := decodeFrom 0 bytes

/-- Decodes bytes with a replacement character for each defect. -/
def decodeLossy : List UInt8 → Text
  | [] => []
  | b :: bytes =>
    match _h : step b bytes with
    | .char c rest => c :: decodeLossy rest
    | .defect _ _ rest => '\uFFFD' :: decodeLossy rest
termination_by bytes => bytes.length
decreasing_by
  all_goals
    have := length_rest_step b bytes
    rw [_h, Step.rest] at this
    simp only [List.length_cons]
    omega

/-! ## Files -/

def mark : List UInt8 := [0xEF, 0xBB, 0xBF]

/-- The bytes behind a byte order mark.  A mark that is cut off by the end counts as a mark. -/
def dropMark (bytes : List UInt8) : List UInt8 :=
  if mark.isPrefixOf bytes then bytes.drop 3
  else if bytes.isPrefixOf mark then []
  else bytes

/-- The text with each carriage return and each carriage return with a line feed made a line
feed. -/
def unifyLineEnds : Text → Text
  | [] => []
  | '\r' :: '\n' :: rest => '\n' :: unifyLineEnds rest
  | c :: rest => (if c == '\r' then '\n' else c) :: unifyLineEnds rest

end RazorViews.Utf8
