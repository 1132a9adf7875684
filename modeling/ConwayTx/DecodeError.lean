import ConwayTx.Address.Error

namespace ConwayTx

inductive DecodeError
  | malformed
  | hashLength (expected found : Nat)
  | unknownCredential (kind : UInt8)
  | unknownNativeScript (variant : UInt32)
  | unknownLanguage (language : UInt8)
  | assetNameTooLong
  | wideBignum
  | bignumOverflow
  | unexpectedTag (tag : UInt64)
  | address (e : AddressError)
  | stakeAddress (e : AddressError)
  deriving DecidableEq, Repr

def DecodeError.message? : DecodeError → Option String
  | .malformed => none
  | .hashLength expected found => some s!"expected {expected} byte hash, got {found}"
  | .unknownCredential kind => some s!"unknown credential kind {kind}"
  | .unknownNativeScript variant => some s!"unknown variant id {variant} for native script"
  | .unknownLanguage language => some s!"unknown script language {language}"
  | .assetNameTooLong => some "asset name longer than 32 bytes"
  | .wideBignum => some "bignum wider than 128 bits"
  | .bignumOverflow => some "bignum overflow"
  | .unexpectedTag tag => some s!"unexpected tag {tag} in plutus data"
  | .address e => e.message?.map (fun why => s!"invalid address: {why}")
  | .stakeAddress e => e.message?.map (fun why => s!"invalid stake address: {why}")

end ConwayTx
