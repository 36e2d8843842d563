/-!
# Lenient UTF-8

Bytes read as UTF-8 with a replacement character for each stretch that is none: an impossible
first byte, or the longest beginning of a sequence that breaks off.
-/

set_option autoImplicit false

namespace PayzenoLedger.Library

namespace Utf8

/-- The bytes of a sequence by its first byte; none begin a sequence of zero. -/
def sequenceLength (first : Nat) : Nat :=
  if first < 0x80 then 1
  else if 0xC2 ≤ first ∧ first ≤ 0xDF then 2
  else if 0xE0 ≤ first ∧ first ≤ 0xEF then 3
  else if 0xF0 ≤ first ∧ first ≤ 0xF4 then 4
  else 0

/-- Whether a byte goes on with the sequence. The second byte of some sequences is bounded more
tightly, so that every character has one sequence and surrogates have none. -/
def continues (first index byte : Nat) : Bool :=
  let least := if index = 1 ∧ first = 0xE0 then 0xA0
    else if index = 1 ∧ first = 0xF0 then 0x90 else 0x80
  let most := if index = 1 ∧ first = 0xED then 0x9F
    else if index = 1 ∧ first = 0xF4 then 0x8F else 0xBF
  least ≤ byte ∧ byte ≤ most

/-- The bytes after the first that go on with the sequence, `missing` of them at most. -/
def continuation (first : Nat) : Nat → Nat → List UInt8 → List Nat
  | _, 0, _ => []
  | _, _ + 1, [] => []
  | index, missing + 1, byte :: bytes =>
      if continues first index byte.toNat then
        byte.toNat :: continuation first (index + 1) missing bytes
      else []

/-- The bits that the first byte gives to the character. -/
def leadBits (first : Nat) : Nat :=
  match sequenceLength first with
  | 1 => first
  | 2 => first % 0x20
  | 3 => first % 0x10
  | _ => first % 0x08

def replacement : Char := '\uFFFD'

/-- Decode with as many steps as there are bytes. -/
def decodeSteps : Nat → List UInt8 → List Char
  | 0, _ => []
  | _, [] => []
  | steps + 1, byte :: bytes =>
      let first := byte.toNat
      let missing := sequenceLength first - 1
      let rest := continuation first 1 missing bytes
      let char :=
        if sequenceLength first = 0 ∨ rest.length < missing then replacement
        else Char.ofNat (rest.foldl (fun code byte => code * 0x40 + byte % 0x40) (leadBits first))
      char :: decodeSteps steps (bytes.drop rest.length)

/-- `bytes.decode("utf-8", errors="replace")`. -/
def decodeReplace (bytes : List UInt8) : String :=
  String.ofList (decodeSteps bytes.length bytes)

end Utf8

end PayzenoLedger.Library
