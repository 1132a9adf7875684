import ConwayTx.Chain
import ConwayTx.Json.Params
import ConwayTx.Session

namespace ConwayTx.Cli

structure Options where
  config : String := "tx-builder.toml"
  params : String
  utxos : String
  changeAddress : String
  payments : List String := []
  validUntil : Option UInt64 := none

inductive UtxosError
  | json
  | ref (e : OutRefError)
  | address (id : String)
  | asset (e : AssetError)
  deriving DecidableEq, Repr

def UtxosError.message? : UtxosError → Option String
  | .json => none
  | .ref e => some e.message
  | .address id => some s!"address of {id}"
  | .asset e => some e.message

inductive PaymentError
  | noSeparator (text : String)
  | amount (e : Decimal.Error)
  deriving DecidableEq, Repr

def PaymentError.message : PaymentError → String
  | .noSeparator text => s!"payment '{text}' is not <address>=<lovelace>"
  | .amount e => e.message

inductive Error
  | usage
  | noFile (name : String)
  | config (e : ConfigError)
  | params
  | utxos (e : UtxosError)
  | payment (e : PaymentError)
  | build (e : BuildError)

def Error.message : Error → String
  | .usage =>
    "usage: [--config FILE] --params FILE --utxos FILE --change-address ADDRESS " ++
      "[--send ADDRESS=LOVELACE]... [--valid-until SECONDS]"
  | .noFile name => s!"cannot read {name}"
  | .config e => e.message?.getD "the configuration is not valid TOML"
  | .params => "the protocol parameters are not valid"
  | .utxos e => e.message?.getD "the outputs are not valid JSON"
  | .payment e => e.message
  | .build e => e.message

/-- Options with their values. An option may be joined to its value by an equals sign; a value of
its own may not look like an option. -/
def splitOptions : List String → Option (List (String × String))
  | [] => some []
  | ["--"] => some []
  | arg :: rest =>
    match arg.toList with
    | '-' :: '-' :: _ =>
      match arg.toList.dropWhile (· != '=') with
      | '=' :: v =>
        let name := String.ofList (arg.toList.takeWhile (· != '='))
        (splitOptions rest).map ((name, String.ofList v) :: ·)
      | _ =>
        match rest with
        | [] => none
        | v :: rest =>
          if v.toList.head? = some '-' ∧ v ≠ "-" then none
          else (splitOptions rest).map ((arg, v) :: ·)
    | _ => none

def optionNames : List String :=
  ["--config", "--params", "--utxos", "--change-address", "--send", "--valid-until"]

def single (given : List (String × String)) (name : String) : Option (Option String) :=
  match given.filter (fun o => o.1 == name) with
  | [] => some none
  | [o] => some (some o.2)
  | _ => none

def required (given : List (String × String)) (name : String) : Option String :=
  (single given name).join

def fileName (name : String) : Option String := if name.isEmpty then none else some name

def Options.parse? (args : List String) : Option Options := do
  let given ← splitOptions args
  guard (given.all (fun o => optionNames.contains o.1))
  let config ← fileName ((← single given "--config").getD "tx-builder.toml")
  let params ← fileName (← required given "--params")
  let utxos ← fileName (← required given "--utxos")
  let changeAddress ← required given "--change-address"
  let validUntil ←
    match ← single given "--valid-until" with
    | some text => (Decimal.uint64 text).toOption.map some
    | none => some none
  let payments := (given.filter (fun o => o.1 == "--send")).map (·.2)
  return { config, params, utxos, changeAddress, payments, validUntil }

structure UtxoEntry where
  address : String
  lovelace : UInt64
  assets : OrdMap String UInt64

instance : FromJson UtxoEntry where
  fromJson? j := do
    let r ← Json.record? ["address", "lovelace", "assets"] j
    return ⟨← r.required "address", ← r.required "lovelace", ← r.withDefault "assets" ∅⟩

def UtxoEntry.toUtxo (id : String) (e : UtxoEntry) : Except UtxosError Utxo :=
  match OutRef.ofText id, Address.ofText e.address with
  | .error why, _ => .error (.ref why)
  | .ok _, .error _ => .error (.address id)
  | .ok ref, .ok address => do
    let value ← e.assets.toList.foldlM (fun (v : Value) (a : String × UInt64) =>
      match AssetId.ofHex a.1 with
      | .ok asset => .ok (v.withAsset asset a.2)
      | .error why => .error (.asset why)) (Value.ofLovelace e.lovelace)
    return { ref := ref, output := { address := address, value := value } }

def readUtxos (text : String) : Except UtxosError (List Utxo) :=
  match (Json.read? text : Option (OrdMap String UtxoEntry)) with
  | none => .error .json
  | some entries => entries.toList.mapM (fun e => e.2.toUtxo e.1)

def readPayment (text : String) : Except PaymentError (String × UInt64) :=
  let reversed := text.toList.reverse
  match reversed.dropWhile (· != '=') with
  | [] => .error (.noSeparator text)
  | _ :: address =>
    match Decimal.uint64 (String.ofList (reversed.takeWhile (· != '=')).reverse) with
    | .ok lovelace => .ok (String.ofList address.reverse, lovelace)
    | .error e => .error (.amount e)

def extension : List Char := ".toml".toList

def isTomlName (name : String) : Bool :=
  let file := (name.toList.reverse.takeWhile (· != '/')).reverse
  extension.isSuffixOf file && extension.length < file.length

/-- The files that may hold the configuration, the first one that is there counts. -/
def configNames (name : String) : List String := [name, name ++ ".toml"]

def Options.files (o : Options) : List String := configNames o.config ++ [o.params, o.utxos]

abbrev Files := String → Option String

def contents (files : Files) (name : String) : String :=
  String.ofList (Toml.trimMark ((files name).getD "").toList)

def readConfig (files : Files) (name : String) : Except Error Config :=
  match (configNames name).find? (fun n => (files n).isSome) with
  | none => .error (.noFile name)
  | some found =>
    if isTomlName found then
      match Config.ofText (contents files found) with
      | .ok c => .ok c
      | .error e => .error (.config e)
    else .error (.noFile name)

def readFile (files : Files) (name : String) : Except Error String :=
  match files name with
  | some text => .ok text
  | none => .error (.noFile name)

def paymentIntent (text : String) : Except Error Intent :=
  match readPayment text with
  | .ok (address, lovelace) => .ok (.send (.text address) (Value.ofLovelace lovelace))
  | .error e => .error (.payment e)

def chainOf (p : Params) (c : Config) (us : List Utxo) : Chain where
  params := p
  networkMagic := c.networkMagic.getD Genesis.mainnetMagic
  utxos := us

def setupOf (c : Config) (chain : Chain) : Setup where
  params := chain.params
  config := c
  select := Selection.largestFirst
  evaluate := chain.evaluator
  datums := chain.datum?

def intents (o : Options) (us : List Utxo) : Except Error (List Intent) := do
  let payments ← o.payments.mapM paymentIntent
  return [.utxos us, .changeAddress (.text o.changeAddress)] ++ payments ++
    (o.validUntil.map (fun t => Intent.invalidAfter (.time t))).toList

def runOptions (o : Options) (files : Files) : Except Error Tx := do
  let config ← readConfig files o.config
  let paramsText ← readFile files o.params
  let params ←
    match (Json.read? paramsText : Option Params) with
    | some p => .ok p
    | none => .error .params
  let utxosText ← readFile files o.utxos
  let utxos ←
    match readUtxos utxosText with
    | .ok us => .ok us
    | .error e => .error (.utxos e)
  let chain := chainOf params config utxos
  let session := Session.start (setupOf config chain) (some chain.networkMagic)
  let (_, built) := ((← intents o utxos).foldl Session.apply session).build
  match built with
  | .ok tx => return tx
  | .error e => .error (.build e)

def output (tx : Tx) : String := Hex.encode tx.bytes

def run (args : List String) (files : Files) : Except Error String :=
  match Options.parse? args with
  | none => .error .usage
  | some o => (runOptions o files).map output

end ConwayTx.Cli
