import Stepwise.Signature.Payload
import Stepwise.Signature.Sha256

/-!
# Signatures of payloads

A payload is signed through its canonical text, the compact JSON text with fields in their order:
the signature is the keyed digest of that text in hexadecimal. A signature is accepted only if it
is exactly the one expected. A payload that cannot be written or encoded has no signature.
-/

namespace Stepwise.Signature

/-- The keyed SHA-256 digest of a message; a key longer than a block is digested first. -/
def keyedDigest (key message : List UInt8) : List UInt8 :=
  let key := if 64 < key.length then Sha256.digest key else key
  let block := key ++ List.replicate (64 - key.length) 0
  Sha256.digest
    (block.map (· ^^^ 0x5c) ++ Sha256.digest (block.map (· ^^^ 0x36) ++ message))

/-- Bytes in hexadecimal, two digits each. -/
def hexOfBytes (bytes : List UInt8) : List Char := bytes.flatMap fun b => Text.hex 2 b.toNat

/-- The bytes that stand for a text. -/
def bytesOfText (s : String) : List UInt8 := s.toUTF8.data.toList

/-- The text that a payload is signed through. -/
def canonical (payload : Payload) : Except Fault (List Text.Point) :=
  if payload.isShort then .ok payload.write else .error (.longInt false)

/-- The bytes that stand for a text of code points; half of a surrogate pair has none. -/
def encode (s : List Text.Point) : Except Fault (List UInt8) :=
  if Text.isPaired s then .ok (bytesOfText (String.ofList (s.filterMap Text.Point.char?)))
  else .error (.unpaired (s.map Text.Point.code))

/-- The signature of a payload under a secret. -/
def sign (payload : Payload) (secret : List Text.Point) : Except Fault String := do
  let key ← encode secret
  let message ← encode (← canonical payload)
  return String.ofList (hexOfBytes (keyedDigest key message))

/-- Whether a signature is the one expected. -/
def verify (payload : Payload) (secret signature : List Text.Point) : Except Fault Bool := do
  let expected ← sign payload secret
  let given ← encode signature
  return bytesOfText expected == given

end Stepwise.Signature
