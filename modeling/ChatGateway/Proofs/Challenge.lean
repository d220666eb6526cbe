import ChatGateway.Credential.Flow
import Mathlib.Data.Nat.Digits.Defs

/-!
# The challenge of a verifier

A flow's URL ends with the challenge of its verifier and with its state.  The challenge is the
digest of the verifier, which is spelled six bits a character.
-/

namespace ChatGateway

namespace Text.Base64Url

/-- The digits in order. -/
def alphabet : List Char :=
  "ABCDEFGHIJKLMNOPQRSTUVWXYZabcdefghijklmnopqrstuvwxyz0123456789-_".toList

/--
The text is the number that the bytes stand for, in digits of six bits.  There are just as many of
them as hold all bits, the last of them filled up with zeros.
-/
def Spells (bytes : List UInt8) (text : List Char) : Prop :=
  ∃ sextets : List Nat, text.map some = sextets.map (alphabet[·]?) ∧
    sextets.length = (8 * bytes.length + 5) / 6 ∧
    Nat.ofDigits 64 sextets.reverse =
      Nat.ofDigits 256 (bytes.map UInt8.toNat).reverse *
        2 ^ (6 * sextets.length - 8 * bytes.length)

end Text.Base64Url

namespace Credential

example : challenge "dBjftJeZ4CVP-mB92K27uhbUJU1p1r_wW1gFWFOEjXk" =
    "E9Melhoa2OwvFrEMTJguCHaoeK1t8URWbuGJSstw-cM" := by
  decide +kernel

end Credential

end ChatGateway
