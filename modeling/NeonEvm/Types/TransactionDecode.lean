import NeonEvm.Platform
import NeonEvm.Types.RlpCrate
import NeonEvm.Types.Transaction

/-!
# Types/TransactionDecode — reading a transaction and the message its sender signed

    list of 9 | 00, list of 9 | 01, list of 11

`Transaction.fromRlp` decodes the fields of an envelope, and cuts the message that was signed out of
the bytes of the transaction.
-/

namespace NeonEvm

open Exec Rlp RlpCrate

/-- A function that may fail with an error of the `rlp` crate, or abort. -/
abbrev Decoding (α : Type) : Type := Exec Fault DecoderError Unit α

/-- `u64::leading_zeros`, `U256::leading_zeros`. -/
def leadingZeros (width n : ℕ) : ℕ := width - n.size

/-- `TransactionEnvelope`. -/
inductive TransactionEnvelope where
  | legacy
  | accessList
  | dynamicFee
  deriving DecidableEq

section

variable [RlpCrate]

/-- An error of the `rlp` crate becomes one of the program. -/
def ofDecoding {α : Type} (x : Decoding α) : Fallible α := fun s =>
  match x s with
  | .ok a s => .ok a s
  | .err e s => .err (.rlpError (display e)) s
  | .panic p => .panic p

/-- `TransactionEnvelope::get_type`. -/
def TransactionEnvelope.getType (bytes : Bytes) :
    Fallible (Option TransactionEnvelope × Bytes) :=
  if isList bytes then pure (none, bytes)
  else do
    let byte ← byteAt bytes 0
    if byte = 0x00 then pure (some legacy, bytes.drop 1)
    else if byte = 0x01 then pure (some accessList, bytes.drop 1)
    else if byte = 0x02 then pure (some dynamicFee, bytes.drop 1)
    else abort .unsupported

/-- `u256`. -/
def u256 (rlp : Bytes) : Except DecoderError U256 := do
  let bytes ← decodeValue rlp
  if bytes.head? = some 0 then throw .rlpInvalidIndirection
  else if bytes.length ≤ 32 then pure (U256.ofBytes bytes)
  else throw .rlpIsTooBig

/-- `StorageKey::decode`. -/
def StorageKey.decode (rlp : Bytes) : Except DecoderError U256 := do
  let bytes ← decodeValue rlp
  if bytes.length = 32 then pure (U256.ofBytes bytes) else throw .rlpInvalidLength

/-- `Address::decode`. -/
def Address.decode (rlp : Bytes) : Except DecoderError Address := do
  let bytes ← decodeValue rlp
  if bytes.length = 20 then pure (BitVec.ofNat 160 (ofBeBytes bytes)) else throw .rlpInvalidLength

/-- The item is as long as the text. -/
def checkLength (rlp : Bytes) : Except DecoderError Unit := do
  let info ← payloadInfo rlp
  if rlp.length ≠ info.headerLen + info.valueLen then throw .rlpInconsistentLengthAndData
  else pure ()

/-- The target of a transaction; the empty byte string for none. -/
def decodeTarget (target : Bytes) : Except DecoderError (Option Address) :=
  if isEmpty target then
    if isData target then pure none else throw .rlpExpectedToBeData
  else some <$> Address.decode target

/-- Nothing follows at `index`. -/
def checkEnd (rlp : Bytes) (index : ℕ) : Except DecoderError Unit :=
  match itemAt rlp index with
  | .ok _ => throw .rlpIncorrectListLen
  | .error _ => pure ()

/-- The chain and the recovery id in the `v` of a signature. -/
def recoverV (v : U256) : Except DecoderError (Option U256 × UInt8) :=
  if 35 ≤ v then pure (some ((v - 1) / 2 - 17), if v % 2 = 0 then 1 else 0)
  else if v = 27 then pure (none, 0)
  else if v = 28 then pure (none, 1)
  else throw .rlpExpectedToBeData

/-- `LegacyTx::decode`. -/
def LegacyTx.decode (rlp : Bytes) : Except DecoderError LegacyTx := do
  checkLength rlp
  let nonce ← decodeU64 (← itemAt rlp 0)
  let gasPrice ← u256 (← itemAt rlp 1)
  let gasLimit ← u256 (← itemAt rlp 2)
  let target ← decodeTarget (← itemAt rlp 3)
  let value ← u256 (← itemAt rlp 4)
  let callData ← data (← itemAt rlp 5)
  let v ← u256 (← itemAt rlp 6)
  let r ← u256 (← itemAt rlp 7)
  let s ← u256 (← itemAt rlp 8)
  checkEnd rlp 9
  let (chainId, recoveryId) ← recoverV v
  pure { nonce, gasPrice, gasLimit, target, value, callData := .fromSlice callData, v, r, s,
         chainId, recoveryId }

/-- An entry of an access list. -/
def decodeEntry (entry : Bytes) : Except DecoderError (Address × List U256) :=
  if isList entry then do
    let address ← Address.decode (← itemAt entry 0)
    let storageKeys ← (iter (← itemAt entry 1)).mapM StorageKey.decode
    pure (address, storageKeys)
  else throw .rlpExpectedToBeList

/-- `AccessListTx::decode`. -/
def AccessListTx.decode (rlp : Bytes) : Except DecoderError AccessListTx := do
  checkLength rlp
  let chainId ← u256 (← itemAt rlp 0)
  let nonce ← decodeU64 (← itemAt rlp 1)
  let gasPrice ← u256 (← itemAt rlp 2)
  let gasLimit ← u256 (← itemAt rlp 3)
  let target ← decodeTarget (← itemAt rlp 4)
  let value ← u256 (← itemAt rlp 5)
  let callData ← data (← itemAt rlp 6)
  let accessList ← (iter (← itemAt rlp 7)).mapM decodeEntry
  let yParity ← decodeU8 (← itemAt rlp 8)
  let r ← u256 (← itemAt rlp 9)
  let s ← u256 (← itemAt rlp 10)
  checkEnd rlp 11
  pure { nonce, gasPrice, gasLimit, target, value, callData := .fromSlice callData, r, s, chainId,
         recoveryId := yParity, accessList }

/-! ## The message that was signed -/

/-- The header of a list of `len` bytes, as the signed message has it. -/
def signedHeader (len : ℕ) : Bytes :=
  if len ≤ 55 then [UInt8.ofNat (0xC0 + len)]
  else
    let lenBytes := (toBeBytes 8 len).drop (leadingZeros 64 len / 8)
    UInt8.ofNat (0xF7 + lenBytes.length) :: lenBytes

/-- What follows the six fields: the chain id and two empty byte strings. -/
def signedTrailer : Option U256 → Decoding Bytes
  | none => pure []
  | some chainId =>
    let bytes := chainId.bytes.drop (leadingZeros 256 chainId.toNat / 8)
    if bytes.length = 0 then pure ([0x80] ++ [0x80, 0x80])
    else if bytes.length = 1 ∧ bytes.headD 0 < 0x80 then pure (bytes ++ [0x80, 0x80])
    else if bytes.length ≤ 55 then
      pure ([UInt8.ofNat (0x80 + bytes.length)] ++ bytes ++ [0x80, 0x80])
    else abort .unsupported

/-- `&raw[start..stop]`. -/
def sliceRaw (raw : Bytes) (start stop : ℕ) : Decoding Bytes :=
  if start ≤ stop ∧ stop ≤ raw.length then pure ((raw.drop start).take (stop - start))
  else abort .index

variable [Platform]

/-- `Transaction::eip2718_signed_hash`. -/
def Transaction.eip2718SignedHash (transactionType transaction : Bytes) (middleOffset : ℕ) :
    Decoding U256 := do
  let info ← ofExcept (payloadInfo transaction)
  let (_, offset) ← ofExcept (atWithOffset transaction middleOffset)
  let body ← sliceRaw transaction info.headerLen offset
  pure (keccak (transactionType ++ signedHeader body.length ++ body))

/-- `Transaction::calculate_legacy_signature`. -/
def Transaction.calculateLegacySignature (transaction : Bytes) (chainId : Option U256) :
    Decoding U256 := do
  let info ← ofExcept (payloadInfo transaction)
  let (_, offset) ← ofExcept (atWithOffset transaction 6)
  let middle ← sliceRaw transaction info.headerLen offset
  let trailer ← signedTrailer chainId
  pure (keccak (signedHeader (middle.length + trailer.length) ++ middle ++ trailer))

/-- The hash of a transaction and the one that was signed, as `Transaction::from_payload` computes
them. -/
def Transaction.hashes (transactionType : Option TransactionEnvelope) (chainId : Option U256)
    (rlp : Bytes) : Decoding (U256 × U256) :=
  match transactionType with
  | some .legacy => do
    let signedHash ← calculateLegacySignature rlp chainId
    pure (keccak ([0x00] ++ rlp), signedHash)
  | some .accessList => do
    let signedHash ← eip2718SignedHash [0x01] rlp 8
    pure (keccak ([0x01] ++ rlp), signedHash)
  | none => do
    let signedHash ← calculateLegacySignature rlp chainId
    pure (keccak rlp, signedHash)
  | some .dynamicFee => abort .unsupported

/-- `Transaction::from_payload`. -/
def Transaction.fromPayload (transactionType : Option TransactionEnvelope) (chainId : Option U256)
    (rlp : Bytes) (transaction : TransactionPayload) : Decoding Transaction := do
  let (hash, signedHash) ← hashes transactionType chainId rlp
  let info ← ofExcept (payloadInfo rlp)
  let byteLen :=
    if transactionType.isNone then info.headerLen + info.valueLen
    else info.headerLen + info.valueLen + 1
  pure { transaction, byteLen, hash, signedHash }

/-- `Transaction::from_rlp`. -/
def Transaction.fromRlp (bytes : Bytes) : Fallible Transaction := do
  let (transactionType, rlp) ← TransactionEnvelope.getType bytes
  match transactionType with
  | some .legacy => do
    let tx ← ofDecoding (ofExcept (LegacyTx.decode rlp))
    ofDecoding (fromPayload (some .legacy) tx.chainId rlp (.legacy tx))
  | some .accessList => do
    let tx ← ofDecoding (ofExcept (AccessListTx.decode rlp))
    ofDecoding (fromPayload (some .accessList) (some tx.chainId) rlp (.accessList tx))
  | none => do
    let tx ← ofDecoding (ofExcept (LegacyTx.decode rlp))
    ofDecoding (fromPayload none tx.chainId rlp (.legacy tx))
  | some .dynamicFee => abort .unsupported

namespace Transaction

variable (t : Transaction)

def r : U256 :=
  match t.transaction with
  | .legacy tx => tx.r
  | .accessList tx => tx.r

def s : U256 :=
  match t.transaction with
  | .legacy tx => tx.s
  | .accessList tx => tx.s

def recoveryId : UInt8 :=
  match t.transaction with
  | .legacy tx => tx.recoveryId
  | .accessList tx => tx.recoveryId

/-- `recover_caller_address`; the three errors of the syscall have one text here. -/
def recoverCallerAddress : Fallible Address :=
  match Platform.secp256k1Recover t.signedHash.bytes t.recoveryId.toNat (t.r.bytes ++ t.s.bytes) with
  | some publicKey => pure (addressOfHash (keccak publicKey))
  | none => fail (.secp256k1Error "The signature provided to a secp256k1_recover is invalid")

end Transaction

end

end NeonEvm
