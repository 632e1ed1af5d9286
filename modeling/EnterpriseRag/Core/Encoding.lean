import Mathlib.Data.List.Basic

/-!
# Encoded bytes

`base64.b64decode` with `validate`, `bytes.fromhex` and the strict UTF-8 decoding of bytes.
Each gives `none` where the original raises.
-/

namespace EnterpriseRag

/-- The value of a character of the standard base64 alphabet. -/
def base64Value (c : Char) : Option ℕ :=
  if 'A' ≤ c ∧ c ≤ 'Z' then some (c.toNat - 'A'.toNat)
  else if 'a' ≤ c ∧ c ≤ 'z' then some (c.toNat - 'a'.toNat + 26)
  else if '0' ≤ c ∧ c ≤ '9' then some (c.toNat - '0'.toNat + 52)
  else if c = '+' then some 62
  else if c = '/' then some 63
  else none

/-- Groups of four, the last one padded. -/
def b64decode : List Char → Option (List UInt8)
  | [] => some []
  | [a, b, '=', '='] => do
    let n := (← base64Value a) * 64 + (← base64Value b)
    return [.ofNat (n / 16)]
  | [a, b, c, '='] => do
    let n := ((← base64Value a) * 64 + (← base64Value b)) * 64 + (← base64Value c)
    return [.ofNat (n / 1024), .ofNat (n / 4)]
  | a :: b :: c :: d :: rest => do
    let n := (((← base64Value a) * 64 + (← base64Value b)) * 64 + (← base64Value c)) * 64 +
      (← base64Value d)
    return .ofNat (n / 65536) :: .ofNat (n / 256) :: .ofNat n :: (← b64decode rest)
  | _ => none

def hexValue (c : Char) : Option ℕ :=
  if '0' ≤ c ∧ c ≤ '9' then some (c.toNat - '0'.toNat)
  else if 'a' ≤ c ∧ c ≤ 'f' then some (c.toNat - 'a'.toNat + 10)
  else if 'A' ≤ c ∧ c ≤ 'F' then some (c.toNat - 'A'.toNat + 10)
  else none

def fromHex : List Char → Option (List UInt8)
  | [] => some []
  | a :: b :: rest => do
    return .ofNat (16 * (← hexValue a) + (← hexValue b)) :: (← fromHex rest)
  | _ => none

/-- A byte that continues a character. -/
def isTail (b : UInt8) : Bool :=
  0x80 ≤ b && b ≤ 0xbf

/-- The first two bytes of a character of three : no surrogate, and no shorter form. -/
def startsThree (a b : UInt8) : Bool :=
  (a = 0xe0 && 0xa0 ≤ b && b ≤ 0xbf) || (a = 0xed && 0x80 ≤ b && b ≤ 0x9f) ||
    (0xe1 ≤ a && a ≤ 0xef && a ≠ 0xed && isTail b)

/-- The first two bytes of a character of four. -/
def startsFour (a b : UInt8) : Bool :=
  (a = 0xf0 && 0x90 ≤ b && b ≤ 0xbf) || (0xf1 ≤ a && a ≤ 0xf3 && isTail b) ||
    (a = 0xf4 && 0x80 ≤ b && b ≤ 0x8f)

def decodeUtf8 : List UInt8 → Option (List Char)
  | [] => some []
  | a :: rest =>
    if a < 0x80 then (Char.ofNat a.toNat :: ·) <$> decodeUtf8 rest
    else match rest with
    | [] => none
    | b :: rest =>
      if 0xc2 ≤ a ∧ a ≤ 0xdf ∧ isTail b then
        (Char.ofNat (a.toNat % 32 * 64 + b.toNat % 64) :: ·) <$> decodeUtf8 rest
      else match rest with
      | [] => none
      | c :: rest =>
        if startsThree a b && isTail c then
          (Char.ofNat ((a.toNat % 16 * 64 + b.toNat % 64) * 64 + c.toNat % 64) :: ·) <$>
            decodeUtf8 rest
        else match rest with
        | [] => none
        | d :: rest =>
          if startsFour a b && isTail c && isTail d then
            (Char.ofNat (((a.toNat % 8 * 64 + b.toNat % 64) * 64 + c.toNat % 64) * 64 +
              d.toNat % 64) :: ·) <$> decodeUtf8 rest
          else none

end EnterpriseRag
