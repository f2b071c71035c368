import Inet256.Foundation.Bytes

/-!
# Cryptographic primitives

The hash functions and the base signature schemes come from packages outside
the repository.  `Primitives` collects exactly what the repository calls of
them; everything built on top is translated from the repository's own code.
The salted extensible output function is translated as written: it constructs
a customised CSHAKE256 and reads from it.
-/

namespace Inet256.Crypto

open Inet256.Foundation

structure SignatureOpts where
  context : Bytes
  deriving DecidableEq

/--
The foreign cryptography.  A base key knows its algorithm, as `Scheme()` does
on the interface values; `sign` and `verify` are the algorithm's operations on
keys of its own type, with nil options.  With options they may panic, if the
algorithm does not support the context.
-/
structure Primitives where
  /-- `sha3.ShakeSum256` into an array of the given size. -/
  shake256 : Bytes → (n : Nat) → List.Vector UInt8 n
  /-- Function name, customisation string, absorbed bytes, and bytes to read. -/
  cshake256 : Bytes → Bytes → Bytes → Nat → Bytes
  Algo : Type
  Pub : Type
  Priv : Type
  [algoDec : DecidableEq Algo]
  [pubDec : DecidableEq Pub]
  [privDec : DecidableEq Priv]
  ed25519 : Algo
  dilithium2 : Algo
  pubAlgo : Pub → Algo
  privAlgo : Priv → Algo
  toPublic : Priv → Pub
  sign : Priv → Bytes → Bytes
  verify : Pub → Bytes → Bytes → Bool
  signOpts : SignatureOpts → Priv → Bytes → Go Bytes
  verifyOpts : SignatureOpts → Pub → Bytes → Bytes → Go Bool
  signatureSize : Algo → Nat
  publicKeySize : Algo → Nat
  privateKeySize : Algo → Nat
  /-- The verb `%v`. -/
  algoText : Algo → String
  /-- The verb `%T`. -/
  algoType : Algo → String
  marshalPub : Pub → Go Bytes
  unmarshalPub : Algo → Bytes → Go Pub
  marshalPriv : Priv → Go Bytes
  unmarshalPriv : Algo → Bytes → Go Priv

attribute [instance] Primitives.algoDec Primitives.pubDec Primitives.privDec

abbrev ME256 := List.Vector UInt8 32

/--
`XOF(salt, in, out)`, returning what it writes to an `out` of `n` bytes.  The
salted branch never writes `in` to the hash before reading from it.
-/
def xof (P : Primitives) (salt : Option ME256) (input : Bytes) (n : Nat) : Bytes :=
  match salt with
  | none => (P.shake256 input n).toList
  | some salt =>
      -- nothing has been absorbed when the output is read
      P.cshake256 [] salt.toList [] n

def sum256 (P : Primitives) (salt : Option ME256) (input : Bytes) : ME256 :=
  copyTo 32 (xof P salt input 32)

end Inet256.Crypto
