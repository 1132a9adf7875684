import ConwayTx.Credential
import ConwayTx.Text.Decimal

namespace ConwayTx

inductive OutRefError
  | noSeparator (text : String)
  | hash (e : HexError)
  | index (e : Decimal.Error)
  deriving DecidableEq, Repr

def OutRefError.message : OutRefError → String
  | .noSeparator text => s!"missing '#' in {text}"
  | .hash e => e.message
  | .index e => e.message

structure OutRef where
  txHash : TxHash
  index : UInt16
  deriving DecidableEq

namespace OutRef

def toText (r : OutRef) : String := s!"{r.txHash.toHex}#{r.index}"

def ofText (text : String) : Except OutRefError OutRef :=
  let chars := text.toList
  match chars.dropWhile (· != '#') with
  | [] => .error (.noSeparator text)
  | _ :: after =>
    match Hash.ofHex (String.ofList (chars.takeWhile (· != '#'))) with
    | .error e => .error (.hash e)
    | .ok txHash =>
      match Decimal.uint16 (String.ofList after) with
      | .error e => .error (.index e)
      | .ok index => .ok ⟨txHash, index⟩

instance : Ranked OutRef where
  rank r := Ranked.rank r.txHash ++ [r.index.toNat]
  rank_inj {a b} h := by
    obtain ⟨h₁, h₂⟩ := Hash.rank_append_inj h
    cases a
    cases b
    simp_all [UInt16.toNat_inj]

def toItem (r : OutRef) : Cbor.Item := .array 2 [r.txHash.toItem, .ofNat r.index.toNat]

def read : Cbor.Reader OutRef :=
  Cbor.Reader.arrayHeader.bind (fun _ =>
    (Cbor.Reader.hash 32).bind (fun txHash =>
      Cbor.Reader.uint16.map (fun index => ⟨txHash, index⟩)))

end OutRef

end ConwayTx
