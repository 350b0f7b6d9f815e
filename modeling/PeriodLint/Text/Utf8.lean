/-!
# UTF-8

Text is encoded character by character. A byte sequence is decoded from the
left, and a place that no character starts at is described by a fault: its
cause and the number of bytes it takes up. A fault takes up the longest start
of some character's encoding, or one byte where there is none.
-/

namespace PeriodLint.Utf8

/-- The bytes of a text. -/
def encode (cs : List Char) : List UInt8 := cs.flatMap String.utf8EncodeChar

/-- Why no character starts at a place. -/
inductive Cause where
  | invalidStart
  | invalidContinuation
  | unexpectedEnd
  deriving DecidableEq, Repr

/-- The character that the bytes start with. -/
def decodeChar? (bytes : List UInt8) : Option Char :=
  (bytes.take 4).toByteArray.utf8DecodeChar? 0

/-- The number of continuation bytes that a first byte announces. -/
def announced (first : UInt8) : Option Nat :=
  if 0xC2 ≤ first ∧ first ≤ 0xDF then some 1
  else if 0xE0 ≤ first ∧ first ≤ 0xEF then some 2
  else if 0xF0 ≤ first ∧ first ≤ 0xF4 then some 3
  else none

/-- Whether a byte may follow a first byte: the second byte excludes the overlong forms, the
surrogates and what lies past the last code point. -/
def secondAllowed (first second : UInt8) : Bool :=
  if first = 0xE0 then 0xA0 ≤ second && second ≤ 0xBF
  else if first = 0xED then 0x80 ≤ second && second ≤ 0x9F
  else if first = 0xF0 then 0x90 ≤ second && second ≤ 0xBF
  else if first = 0xF4 then 0x80 ≤ second && second ≤ 0x8F
  else 0x80 ≤ second && second ≤ 0xBF

/-- A byte that continues a character. -/
def isContinuation (b : UInt8) : Bool := 0x80 ≤ b && b ≤ 0xBF

/-- The cause and the width of the fault at bytes that start no character. -/
def fault : List UInt8 → Cause × Nat
  | [] => (.unexpectedEnd, 0)
  | first :: rest =>
      match announced first with
      | none => (.invalidStart, 1)
      | some more =>
          match rest with
          | [] => (.unexpectedEnd, 1)
          | second :: rest =>
              if secondAllowed first second then
                let good := (rest.take (more - 1)).takeWhile isContinuation
                if good.length = rest.length then (.unexpectedEnd, 2 + good.length)
                else (.invalidContinuation, 2 + good.length)
              else (.invalidContinuation, 1)

/-- What stands for bytes that are no text. -/
def replacement : Char := '\uFFFD'

/-- The text of the bytes with one replacement character for each fault. -/
def decodeLossy (bytes : List UInt8) : List Char :=
  match bytes with
  | [] => []
  | b :: rest =>
      match decodeChar? (b :: rest) with
      | some c => c :: decodeLossy (rest.drop (c.utf8Size - 1))
      | none => replacement :: decodeLossy (rest.drop ((fault (b :: rest)).2 - 1))
termination_by bytes.length
decreasing_by
  all_goals simp only [List.length_drop, List.length_cons]; omega

/-- A place at which bytes are no text. -/
structure DecodeError where
  cause : Cause
  offset : Nat
  width : Nat
  byte : UInt8
  deriving DecidableEq, Repr

/-- The text of the bytes that lie at an offset, or the first fault. -/
def decodeFrom (offset : Nat) (bytes : List UInt8) : Except DecodeError (List Char) :=
  match bytes with
  | [] => .ok []
  | b :: rest =>
      match decodeChar? (b :: rest) with
      | some c => (decodeFrom (offset + c.utf8Size) (rest.drop (c.utf8Size - 1))).map (c :: ·)
      | none => .error ⟨(fault (b :: rest)).1, offset, (fault (b :: rest)).2, b⟩
termination_by bytes.length
decreasing_by
  simp only [List.length_drop, List.length_cons]; omega

/-- The text of the bytes, or the first fault in them. -/
def decode (bytes : List UInt8) : Except DecodeError (List Char) := decodeFrom 0 bytes

/-- The words for a cause. -/
def Cause.message : Cause → String
  | invalidStart => "invalid start byte"
  | invalidContinuation => "invalid continuation byte"
  | unexpectedEnd => "unexpected end of data"

/-- A byte as two hexadecimal digits. -/
def hexByte (b : UInt8) : String :=
  String.ofList [Nat.digitChar (b.toNat / 16), Nat.digitChar (b.toNat % 16)]

/-- The report of a fault names the byte where it is one byte long and the span where it is
longer. -/
def DecodeError.message (e : DecodeError) : String :=
  if e.width = 1 then
    s!"'utf-8' codec can't decode byte 0x{hexByte e.byte} in position {e.offset}: {e.cause.message}"
  else
    let last := e.offset + e.width - 1
    s!"'utf-8' codec can't decode bytes in position {e.offset}-{last}: {e.cause.message}"

end PeriodLint.Utf8
