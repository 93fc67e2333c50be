import Mathlib.Data.List.Basic

/-!
# The standard base64 encoding

Three bytes are four digits of six bits. One or two bytes at the end are filled up with zero
bits, and the digits that hold none of their bits are padding.
-/

namespace Catena.Framework.Base64

def alphabet : List Char :=
  "ABCDEFGHIJKLMNOPQRSTUVWXYZabcdefghijklmnopqrstuvwxyz0123456789+/".toList

def symbol (digit : Nat) : Char := alphabet.getD digit '\x00'

/-- The padded encoding. -/
def encode : List UInt8 → List Char
  | [] => []
  | [a] => [symbol (a.toNat / 4), symbol (a.toNat % 4 * 16), '=', '=']
  | [a, b] =>
      [symbol (a.toNat / 4), symbol (a.toNat % 4 * 16 + b.toNat / 16),
        symbol (b.toNat % 16 * 4), '=']
  | a :: b :: c :: rest =>
      symbol (a.toNat / 4) :: symbol (a.toNat % 4 * 16 + b.toNat / 16) ::
        symbol (b.toNat % 16 * 4 + c.toNat / 64) :: symbol (c.toNat % 64) :: encode rest

end Catena.Framework.Base64
