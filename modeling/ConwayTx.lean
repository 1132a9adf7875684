import ConwayTx.Address.Basic
import ConwayTx.Address.Error
import ConwayTx.Address.Text
import ConwayTx.Anchor
import ConwayTx.Asset
import ConwayTx.Balance
import ConwayTx.Blake2b
import ConwayTx.BuildError
import ConwayTx.Bytes
import ConwayTx.Cbor.Item
import ConwayTx.Cbor.Reader
import ConwayTx.Certificate
import ConwayTx.Chain
import ConwayTx.Cli
import ConwayTx.Collateral
import ConwayTx.Config
import ConwayTx.Credential
import ConwayTx.DecodeError
import ConwayTx.Draft
import ConwayTx.Fee
import ConwayTx.Governance
import ConwayTx.Hash
import ConwayTx.Int128
import ConwayTx.Intent
import ConwayTx.Intent.Steps
import ConwayTx.Json.Basic
import ConwayTx.Json.Codec
import ConwayTx.Json.Draft
import ConwayTx.Json.Ledger
import ConwayTx.Json.Members
import ConwayTx.Json.Params
import ConwayTx.Json.Parser
import ConwayTx.Json.Printer
import ConwayTx.Main
import ConwayTx.Metadata
import ConwayTx.Metadata.NoSchema
import ConwayTx.OrdMap
import ConwayTx.OutRef
import ConwayTx.Params
import ConwayTx.Plutus.Data
import ConwayTx.Plutus.Json
import ConwayTx.Ratio
import ConwayTx.Redeemer
import ConwayTx.Script
import ConwayTx.Selection
import ConwayTx.Session
import ConwayTx.Slots
import ConwayTx.Text.Base58
import ConwayTx.Text.Bech32
import ConwayTx.Text.Decimal
import ConwayTx.Text.Hex
import ConwayTx.Text.Quoted
import ConwayTx.Toml.Basic
import ConwayTx.Toml.Parser
import ConwayTx.Toml.Scalar
import ConwayTx.Tx.Basic
import ConwayTx.Utxo
import ConwayTx.Value
import ConwayTx.VarNat
import ConwayTx.Witness.Requirement
import ConwayTx.Witness.Resolution
import ConwayTx.Word
import ConwayTx.Proofs.Address.Byron
import ConwayTx.Proofs.Address.Bytes
import ConwayTx.Proofs.Address.Text
import ConwayTx.Proofs.Balance.Accepted
import ConwayTx.Proofs.Balance.Collateral
import ConwayTx.Proofs.Balance.Conservation
import ConwayTx.Proofs.Balance.Defences
import ConwayTx.Proofs.Balance.Draws
import ConwayTx.Proofs.Balance.Evaluation
import ConwayTx.Proofs.Balance.FeeCoverage
import ConwayTx.Proofs.Balance.Growth
import ConwayTx.Proofs.Balance.Inputs
import ConwayTx.Proofs.Balance.MinLovelace
import ConwayTx.Proofs.Balance.Owners
import ConwayTx.Proofs.Balance.Plan
import ConwayTx.Proofs.Balance.PoolOrder
import ConwayTx.Proofs.Balance.Progress
import ConwayTx.Proofs.Balance.Quantities
import ConwayTx.Proofs.Balance.References
import ConwayTx.Proofs.Balance.Request
import ConwayTx.Proofs.Bytes
import ConwayTx.Proofs.Cbor
import ConwayTx.Proofs.Cbor.Delimiting
import ConwayTx.Proofs.Cbor.ReadBack
import ConwayTx.Proofs.Cbor.Reading
import ConwayTx.Proofs.Cbor.Tree
import ConwayTx.Proofs.Cbor.Writing
import ConwayTx.Proofs.Collateral.Refusal
import ConwayTx.Proofs.Draft
import ConwayTx.Proofs.Fee
import ConwayTx.Proofs.Fee.Passes
import ConwayTx.Proofs.Fee.Tiers
import ConwayTx.Proofs.Intent
import ConwayTx.Proofs.Metadata
import ConwayTx.Proofs.Metadata.Keys
import ConwayTx.Proofs.Metadata.NoSchema
import ConwayTx.Proofs.Mint
import ConwayTx.Proofs.OrdMap
import ConwayTx.Proofs.Plutus.Grammar
import ConwayTx.Proofs.Plutus.Reading
import ConwayTx.Proofs.Plutus.RoundTrip
import ConwayTx.Proofs.Script
import ConwayTx.Proofs.Selection
import ConwayTx.Proofs.Selection.Coverage
import ConwayTx.Proofs.Selection.Fewest
import ConwayTx.Proofs.Selection.Order
import ConwayTx.Proofs.Session
import ConwayTx.Proofs.Slots
import ConwayTx.Proofs.Spending
import ConwayTx.Proofs.Text.Base58
import ConwayTx.Proofs.Text.Bech32
import ConwayTx.Proofs.Text.Decimal
import ConwayTx.Proofs.Text.Hex
import ConwayTx.Proofs.Text.Utf8
import ConwayTx.Proofs.Tx.Encoding
import ConwayTx.Proofs.UpperCase
import ConwayTx.Proofs.Value
import ConwayTx.Proofs.Value.Arithmetic
import ConwayTx.Proofs.Value.Pruned
import ConwayTx.Proofs.Value.Reading
import ConwayTx.Proofs.VarNat
import ConwayTx.Proofs.VarNat.Streams
import ConwayTx.Proofs.Witness.Carried
import ConwayTx.Proofs.Witness.Consent
import ConwayTx.Proofs.Witness.Datums
import ConwayTx.Proofs.Witness.Integrity
import ConwayTx.Proofs.Witness.Pairing
import ConwayTx.Proofs.Witness.Preimage
import ConwayTx.Proofs.Witness.Resolving
import ConwayTx.Proofs.Witness.Satisfiable
