namespace TruthTables.Text

inductive Utf8Fault where
  | start
  | continuation
  | ending
  deriving DecidableEq, Repr

def Utf8Fault.message : Utf8Fault → String
  | start => "invalid start byte"
  | continuation => "invalid continuation byte"
  | ending => "unexpected end of data"

structure Utf8Error where
  fault : Utf8Fault
  byte : UInt8
  position : Nat
  length : Nat
  deriving DecidableEq, Repr

-- The first byte of a character: its share of the code point, and the ranges that the further bytes
-- have to lie in. Only the first of these can be narrower than the full range of continuation
-- bytes, which keeps out surrogates, code points past the last one and forms longer than need be.
def leadByte (byte : Nat) : Option (Nat × List (Nat × Nat)) :=
  let full := (0x80, 0xbf)
  if byte < 0x80 then some (byte, [])
  else if byte < 0xc2 then none
  else if byte < 0xe0 then some (byte - 0xc0, [full])
  else if byte = 0xe0 then some (0, [(0xa0, 0xbf), full])
  else if byte = 0xed then some (0xd, [(0x80, 0x9f), full])
  else if byte < 0xf0 then some (byte - 0xe0, [full, full])
  else if byte = 0xf0 then some (0, [(0x90, 0xbf), full, full])
  else if byte < 0xf4 then some (byte - 0xf0, [full, full, full])
  else if byte = 0xf4 then some (4, [(0x80, 0x8f), full, full])
  else none

def continueCode (good code : Nat) : List (Nat × Nat) → List UInt8 → Except (Utf8Fault × Nat) Nat
  | [], _ => .ok code
  | _ :: _, [] => .error (.ending, good)
  | (first, last) :: ranges, byte :: rest =>
    if first ≤ byte.toNat && byte.toNat ≤ last then
      continueCode (good + 1) (code * 64 + (byte.toNat - 0x80)) ranges rest
    else .error (.continuation, good)

def decodeFrom (position : Nat) : List UInt8 → Except Utf8Error (List Char)
  | [] => .ok []
  | byte :: rest =>
    match leadByte byte.toNat with
    | none => .error ⟨.start, byte, position, 1⟩
    | some (share, ranges) =>
      match continueCode 0 share ranges rest with
      | .error (fault, good) => .error ⟨fault, byte, position, good + 1⟩
      | .ok code =>
        match decodeFrom (position + 1 + ranges.length) (rest.drop ranges.length) with
        | .error error => .error error
        | .ok chars => .ok (Char.ofNat code :: chars)
termination_by bytes => bytes.length
decreasing_by simp only [List.length_drop, List.length_cons]; omega

def decodeUtf8 (bytes : List UInt8) : Except Utf8Error (List Char) := decodeFrom 0 bytes

end TruthTables.Text
