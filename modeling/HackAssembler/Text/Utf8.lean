import HackAssembler.Text.Numeral

/-! Text as bytes: encoding, decoding, and the first ill-formed sequence where decoding stops. -/
namespace HackAssembler.Utf8

/-- Why a sequence of bytes encodes no character. -/
inductive Reason where
  | startByte
  | continuationByte
  | endOfData
  deriving DecidableEq, Repr

def Reason.message : Reason → Text
  | .startByte => "invalid start byte"
  | .continuationByte => "invalid continuation byte"
  | .endOfData => "unexpected end of data"

/-- The first ill-formed sequence: where it starts, its first byte, and how many of its bytes could still have
begun a character. -/
structure Fault where
  position : Nat
  byte : UInt8
  length : Nat
  reason : Reason
  deriving DecidableEq, Repr

def Fault.message (f : Fault) : Text :=
  "'utf-8' codec can't decode byte" ++
    (if f.length ≤ 1 then
      " 0x" ++ (Nat.toDigits 16 f.byte.toNat).leftpad 2 '0' ++ " in position " ++
        Numeral.decimal f.position
    else
      "s in position " ++ Numeral.decimal f.position ++ "-" ++
        Numeral.decimal (f.position + f.length - 1 : Nat)) ++
    ": " ++ f.reason.message

/-- The ranges that the bytes behind a start byte must lie in. They keep out overlong forms, surrogates and
everything above the last code point. -/
def continuations? (start : UInt8) : Option (List (UInt8 × UInt8)) :=
  let any : UInt8 × UInt8 := (0x80, 0xBF)
  if start < 0x80 then some []
  else if start < 0xC2 then none
  else if start < 0xE0 then some [any]
  else if start = 0xE0 then some [(0xA0, 0xBF), any]
  else if start = 0xED then some [(0x80, 0x9F), any]
  else if start < 0xF0 then some [any, any]
  else if start = 0xF0 then some [(0x90, 0xBF), any, any]
  else if start < 0xF4 then some [any, any, any]
  else if start = 0xF4 then some [(0x80, 0x8F), any, any]
  else none

/-- Reads the bytes behind a start byte; `length` bytes of the sequence have been read. -/
def follow : List (UInt8 × UInt8) → List UInt8 → Nat → Except (Nat × Reason) Nat
  | [], _, length => .ok length
  | _ :: _, [], length => .error (length, .endOfData)
  | (first, last) :: ranges, b :: bytes, length =>
    if first ≤ b ∧ b ≤ last then follow ranges bytes (length + 1)
    else .error (length, .continuationByte)

/-- The length of the sequence that `start` opens. -/
def sequence (start : UInt8) (bytes : List UInt8) : Except (Nat × Reason) Nat :=
  match continuations? start with
  | none => .error (1, .startByte)
  | some ranges => follow ranges bytes 1

/-- The first ill-formed sequence from `position` on, with `skip` more bytes of a good one to pass. Behind good
bytes only, it is the empty end. -/
def firstFault : List UInt8 → (position skip : Nat) → Fault
  | [], position, _ => ⟨position, 0, 0, .endOfData⟩
  | _ :: bytes, position, skip + 1 => firstFault bytes (position + 1) skip
  | b :: bytes, position, 0 =>
    match sequence b bytes with
    | .ok length => firstFault bytes (position + 1) (length - 1)
    | .error (length, reason) => ⟨position, b, length, reason⟩

def encode (t : Text) : ByteArray := (String.ofList t).toUTF8

/-- Bytes that are not text are answered by their first fault. -/
def decode (bytes : ByteArray) : Except Fault Text :=
  match String.fromUTF8? bytes with
  | some s => .ok s.toList
  | none => .error (firstFault bytes.data.toList 0 0)

private theorem fromUTF8?_encode (t : Text) :
    String.fromUTF8? (encode t) = some (String.ofList t) := by
  simp only [String.fromUTF8?, encode, String.toUTF8_eq_toByteArray,
    dif_pos (String.ofList t).isValidUTF8]
  rfl

@[simp] theorem decode_encode (t : Text) : decode (encode t) = .ok t := by
  simp only [decode, fromUTF8?_encode, String.toList_ofList]

end HackAssembler.Utf8
