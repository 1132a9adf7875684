import ConwayTx.Bytes

namespace ConwayTx.Base58

def alphabet : List Char :=
  "123456789ABCDEFGHJKLMNPQRSTUVWXYZabcdefghijkmnopqrstuvwxyz".toList

def digit (n : Nat) : Char := alphabet.getD n '1'

def digitValue? (c : Char) : Option Nat := alphabet.idxOf? c

def encode (bs : Bytes) : String :=
  let zeros := bs.takeWhile (· == 0)
  let digits := Bytes.digitsBefore 56 (Bytes.toNat bs) []
  String.ofList (zeros.map (fun _ => '1') ++ digits.map digit)

def decode? (text : String) : Option Bytes := do
  let chars := text.toList
  let digits ← chars.mapM digitValue?
  let ones := chars.takeWhile (· == '1')
  let value := digits.foldl (fun n d => n * 58 + d) 0
  return ones.map (fun _ => 0) ++ Bytes.ofNatMinimal value

end ConwayTx.Base58
