import ConwayTx.Text.Bech32
import ConwayTx.VarNat

namespace ConwayTx

inductive AddressError
  | bech32 (e : Bech32Error)
  | unrecognised
  | empty
  | unknownHeader (header : UInt8)
  | badLength (length : Nat)
  | badPointer (e : VarNat.Error)
  | prefixMismatch (hrp : String)
  deriving DecidableEq, Repr

namespace AddressError

def message? : AddressError → Option String
  | .bech32 e => e.message?
  | .unrecognised => some "not a base58 or bech32 address"
  | .empty => some "empty address data"
  | .unknownHeader header => some s!"unknown header byte {Bech32Error.headerText header}"
  | .badLength length => some s!"bad address length {length}"
  | .badPointer e => some s!"bad pointer: {e.message}"
  | .prefixMismatch hrp => some s!"prefix {hrp} does not match the address header"

def isMalformed : AddressError → Bool
  | .bech32 e => e.isMalformed
  | .unrecognised => true
  | _ => false

end AddressError

end ConwayTx
