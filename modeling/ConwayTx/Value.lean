import ConwayTx.Asset

namespace ConwayTx

abbrev Assets := OrdMap PolicyId (OrdMap AssetName UInt64)

abbrev Mint := OrdMap PolicyId (OrdMap AssetName Int64)

namespace Assets

def quantity (m : Assets) (policy : PolicyId) (name : AssetName) : UInt64 :=
  ((m.get? policy).bind (·.get? name)).getD 0

def set (m : Assets) (policy : PolicyId) (name : AssetName) (q : UInt64) : Assets :=
  m.insert policy (((m.get? policy).getD ∅).insert name q)

def entries (m : Assets) : List (AssetId × UInt64) :=
  m.toList.flatMap (fun p => p.2.toList.map (fun n => (⟨p.1, n.1⟩, n.2)))

def positive (m : Assets) : Bool := m.any (fun _ names => names.any (fun _ q => decide (0 < q)))

def prune (m : Assets) : Assets :=
  (m.mapValues (fun _ names => names.filter (fun _ q => decide (0 < q)))).filter
    (fun _ names => !names.isEmpty)

end Assets

structure Value where
  lovelace : UInt64
  assets : Assets
  deriving DecidableEq

namespace Value

def ofLovelace (lovelace : UInt64) : Value := ⟨lovelace, ∅⟩

def zero : Value := ofLovelace 0

instance : Inhabited Value := ⟨zero⟩

def quantity (v : Value) (id : AssetId) : UInt64 := v.assets.quantity id.policy id.name

def prune (v : Value) : Value := { v with assets := v.assets.prune }

def hasAssets (v : Value) : Bool := v.assets.positive

def isZero (v : Value) : Bool := v.lovelace == 0 && !v.hasAssets

def withAsset (v : Value) (id : AssetId) (amount : UInt64) : Value :=
  if 0 < amount then
    { v with assets := v.assets.set id.policy id.name ((v.quantity id).saturatingAdd amount) }
  else v

def covers (v w : Value) : Bool :=
  decide (w.lovelace ≤ v.lovelace) &&
    w.assets.entries.all (fun e => decide (e.2 ≤ v.quantity e.1))

def checkedAdd (v w : Value) : Option Value := do
  let lovelace ← v.lovelace.checkedAdd w.lovelace
  let assets ← w.assets.entries.foldlM (fun m e => do
    let q ← (Assets.quantity m e.1.policy e.1.name).checkedAdd e.2
    return Assets.set m e.1.policy e.1.name q) v.assets
  return ⟨lovelace, assets.prune⟩

/-- Componentwise sum that stops at the largest word. -/
def add (v w : Value) : Value :=
  let assets := w.assets.entries.foldl (fun m e =>
    Assets.set m e.1.policy e.1.name
      ((Assets.quantity m e.1.policy e.1.name).saturatingAdd e.2)) v.assets
  ⟨v.lovelace.saturatingAdd w.lovelace, assets.prune⟩

instance : Add Value := ⟨add⟩

def saturatingSub (v w : Value) : Value :=
  let assets : Assets := v.assets.mapValues (fun policy names =>
    names.mapValues (fun name q => q.saturatingSub (w.assets.quantity policy name)))
  ⟨v.lovelace.saturatingSub w.lovelace, assets.prune⟩

def checkedSub (v w : Value) : Option Value :=
  if v.covers w then some (v.saturatingSub w) else none

def sum (vs : List Value) : Value := vs.foldl add zero

def assetsItem (m : Assets) : Cbor.Item :=
  .map m.size (m.toList.map (fun p =>
    (p.1.toItem, .map p.2.size (p.2.toList.map (fun n => (n.1.toItem, .nat n.2))))))

/-- A bare coin where no asset is positive, else a pair of the coin and all assets. -/
def toItem (v : Value) : Cbor.Item :=
  if v.hasAssets then .array 2 [.nat v.lovelace, assetsItem v.assets] else .nat v.lovelace

def readAssets : Cbor.Reader Assets :=
  (Cbor.Reader.mapOf (Cbor.Reader.hash 28)
    ((Cbor.Reader.mapOf AssetName.read Cbor.Reader.nat).map OrdMap.ofList)).map OrdMap.ofList

def read : Cbor.Reader Value :=
  Cbor.Reader.peek.bind (fun b =>
    if Cbor.Reader.major b = 4 then
      Cbor.Reader.arrayHeader.bind (fun _ =>
        Cbor.Reader.nat.bind (fun lovelace =>
          readAssets.map (fun assets => prune ⟨lovelace, assets⟩)))
    else Cbor.Reader.nat.map ofLovelace)

def describe (v : Value) : String :=
  let braced (parts : List String) : String := "\x7b" ++ ", ".intercalate parts ++ "\x7d"
  let names (m : OrdMap AssetName UInt64) : String :=
    braced (m.toList.map (fun n => s!"{n.1.describe}: {n.2}"))
  let policies := braced (v.assets.toList.map (fun p =>
    "Hash<28>(\"" ++ p.1.toHex ++ "\"): " ++ names p.2))
  s!"Value \x7b lovelace: {v.lovelace}, assets: {policies} \x7d"

end Value

namespace Mint

def quantity (m : Mint) (policy : PolicyId) (name : AssetName) : Int64 :=
  ((m.get? policy).bind (·.get? name)).getD 0

def set (m : Mint) (policy : PolicyId) (name : AssetName) (q : Int64) : Mint :=
  m.insert policy (((m.get? policy).getD ∅).insert name q)

def entries (m : Mint) : List (AssetId × Int64) :=
  m.toList.flatMap (fun p => p.2.toList.map (fun n => (⟨p.1, n.1⟩, n.2)))

def magnitude (q : Int64) : UInt64 := UInt64.ofNat q.toInt.natAbs

def minted (m : Mint) : Value :=
  m.entries.foldl (fun (v : Value) (e : AssetId × Int64) =>
    if 0 < e.2.toInt then v.withAsset e.1 (magnitude e.2) else v) Value.zero

def burned (m : Mint) : Value :=
  m.entries.foldl (fun (v : Value) (e : AssetId × Int64) =>
    if e.2.toInt < 0 then v.withAsset e.1 (magnitude e.2) else v) Value.zero

def toItem (m : Mint) : Cbor.Item :=
  .map m.size (m.toList.map (fun p =>
    (p.1.toItem, .map p.2.size (p.2.toList.map (fun n =>
      (n.1.toItem, Cbor.Item.ofInt n.2.toInt))))))

end Mint

end ConwayTx
