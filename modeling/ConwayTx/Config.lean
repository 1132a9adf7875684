import ConwayTx.Text.Decimal
import ConwayTx.Toml.Parser

namespace ConwayTx

structure Config where
  maxRounds : UInt32 := 10
  /-- The network whose clock converts times to slots; by default that of the chain. -/
  networkMagic : Option UInt32 := none
  collateralMargin : UInt64 := 0
  /-- Scripts are evaluated for their budgets; otherwise they share the limit of a transaction. -/
  evaluates : Bool := true
  deriving DecidableEq, Repr

inductive ConfigError
  | malformed
  | noRounds
  deriving DecidableEq, Repr

def ConfigError.message? : ConfigError → Option String
  | .malformed => none
  | .noRounds => some "max-balance-iterations must be at least 1"

namespace Toml

def truthOfWord? (s : String) : Option Bool :=
  let word := String.ofList (s.toList.map Char.toLower)
  if word = "true" ∨ word = "on" ∨ word = "yes" then some true
  else if word = "false" ∨ word = "off" ∨ word = "no" then some false
  else none

def word? : Toml → Option UInt64
  | int n => if 0 ≤ n.toInt then UInt64.ofNat? n.toInt.toNat else none
  | float x => some x.round.toUInt64
  | bool b => some b.toUInt64
  | str s =>
    match truthOfWord? s with
    | some b => some b.toUInt64
    | none => (Decimal.uint64 s).toOption
  | _ => none

def narrowWord? (v : Toml) : Option UInt32 :=
  v.word?.bind (fun n => if n.toNat < UInt32.size then some n.toUInt32 else none)

def truth? : Toml → Option Bool
  | bool b => some b
  | int n => some (n != 0)
  | float x => some (x != 0)
  | str s => if s = "1" then some true else if s = "0" then some false else truthOfWord? s
  | _ => none

end Toml

namespace Config

def ofEntries (es : Toml.Entries) : Except ConfigError Config :=
  let maxRounds := ((es.lookup "max-balance-iterations").bind Toml.narrowWord?).getD 10
  if maxRounds = 0 then .error .noRounds
  else .ok {
    maxRounds
    networkMagic := (es.lookup "network-magic").bind Toml.narrowWord?
    collateralMargin := ((es.lookup "collateral-margin").bind Toml.word?).getD 0
    evaluates := ((es.lookup "enable-evaluation").bind Toml.truth?).getD true }

def ofText (text : String) : Except ConfigError Config :=
  match Toml.parse? text with
  | some es => ofEntries es
  | none => .error .malformed

end Config

end ConwayTx
