import ConwayTx.Address.Basic
import ConwayTx.Text.Base58

namespace ConwayTx

def AddressError.readPrefixed {α : Type} (ofBytes : Bytes → Except AddressError α)
    (hrp : α → String) (text : String) : Except AddressError α :=
  match Bech32.decode text with
  | .error e => .error (.bech32 e)
  | .ok (found, data) =>
    match ofBytes data with
    | .error e => .error e
    | .ok a => if hrp a = found then .ok a else .error (.prefixMismatch found)

def AddressError.ofBech32 {α : Type} : Except Bech32Error α → Except AddressError α
  | .ok a => .ok a
  | .error e => .error (.bech32 e)

namespace ShelleyAddress

def hrp (a : ShelleyAddress) : String :=
  match a.network with
  | .mainnet => "addr"
  | .testnet => "addr_test"

def toText (a : ShelleyAddress) : Except AddressError String :=
  AddressError.ofBech32 (Bech32.encode a.hrp a.toBytes)

def ofText (text : String) : Except AddressError ShelleyAddress :=
  AddressError.readPrefixed ofBytes hrp text

end ShelleyAddress

namespace StakeAddress

def hrp (a : StakeAddress) : String :=
  match a.network with
  | .mainnet => "stake"
  | .testnet => "stake_test"

def toText (a : StakeAddress) : Except AddressError String :=
  AddressError.ofBech32 (Bech32.encode a.hrp a.toBytes)

def ofText (text : String) : Except AddressError StakeAddress :=
  AddressError.readPrefixed ofBytes hrp text

end StakeAddress

namespace Address

def toText : Address → Except AddressError String
  | none => .error .empty
  | byron payload => .ok (Base58.encode payload)
  | shelley a => a.toText
  | stake a => a.toText

/-- Base58 text, which is only taken where its first byte opens a two element array. -/
def ofBase58 (text : String) : Except AddressError Address :=
  match Base58.decode? text with
  | Option.none => .error .unrecognised
  | some [] => .error .empty
  | some (0x82 :: rest) => .ok (byron (0x82 :: rest))
  | some (header :: _) => .error (.unknownHeader header)

def ofText (text : String) : Except AddressError Address :=
  if "addr".toList.isPrefixOf text.toList then (ShelleyAddress.ofText text).map shelley
  else if "stake".toList.isPrefixOf text.toList then (StakeAddress.ofText text).map stake
  else ofBase58 text

end Address

end ConwayTx
