/-
# Supernodes and their signatures

The part of `Supernode` (`rta/supernode.h`, `supernode.cpp`) that signs and checks.
Keys, signatures and hashes, their hex forms and the signature scheme belong to the
cryptonote library, which is not part of the repository: they are the fields of
`Crypto`, with `hexToPublicKey` and its like for `epee::string_tools::hex_to_pod`.

`hex_to_pod` leaves its target alone when it fails, and `signHash` does so without a
secret key.  Where the code goes on all the same, it uses a local variable that was
never given a value; `Unspecified` holds what such variables happen to contain in
one call, together with the random nonces of the signatures it makes.
-/
import Mathlib.Data.Int.Notation
import Mathlib.Data.Nat.Notation

/-- The cryptonote functions the supernode calls. -/
structure Crypto where
  PublicKey : Type
  SecretKey : Type
  Signature : Type
  Hash : Type
  Nonce : Type
  hexToPublicKey : String → Option PublicKey
  publicKeyToHex : PublicKey → String
  hexToSignature : String → Option Signature
  signatureToHex : Signature → String
  hexToHash : String → Option Hash
  hashToHex : Hash → String
  cnFastHash : String → Hash
  generateSignature : Nonce → Hash → PublicKey → SecretKey → Signature
  checkSignature : Hash → PublicKey → Signature → Bool

/-- What the uninitialised locals of one call contain, and its nonces: the `i`-th
signature of the call is made with `nonce i`. -/
structure Unspecified (C : Crypto) where
  idKey : C.PublicKey
  sign : C.Signature
  txId : C.Hash
  nonce : ℕ → C.Nonce

/-- `Supernode`; `secretKey` is `none` while `m_has_secret_key` is false. -/
structure Supernode (C : Crypto) where
  idKey : C.PublicKey
  secretKey : Option C.SecretKey
  lastUpdateTime : ℤ
  testnet : Bool

namespace Supernode

variable {C : Crypto}

/-- `Supernode::idKeyAsString` -/
def idKeyAsString (s : Supernode C) : String := C.publicKeyToHex s.idKey

/-- `Supernode::signHash`: the signature afterwards. -/
def signHash (s : Supernode C) (u : Unspecified C) (i : ℕ) (hash : C.Hash) : C.Signature :=
  match s.secretKey with
  | none => u.sign
  | some secretKey => C.generateSignature (u.nonce i) hash s.idKey secretKey

/-- `Supernode::signMessage` -/
def signMessage (s : Supernode C) (u : Unspecified C) (i : ℕ) (msg : String) : C.Signature :=
  s.signHash u i (C.cnFastHash msg)

/-- `Supernode::verifyHash` -/
def verifyHash (C : Crypto) (hash : C.Hash) (pkey : C.PublicKey) (signature : C.Signature) : Bool :=
  C.checkSignature hash pkey signature

/-- `Supernode::verifySignature` -/
def verifySignature (C : Crypto) (msg : String) (pkey : C.PublicKey) (signature : C.Signature) :
    Bool :=
  verifyHash C (C.cnFastHash msg) pkey signature

/-- `Supernode::getAmountFromTx`, which finds no amount in any transaction. -/
def getAmountFromTx {T : Type*} (_tx : T) : Option ℕ := none

end Supernode
