import ConwayTx.Witness.Requirement
/-!
Witnesses other than signatures: the scripts that guard the actions of a draft, their redeemers
and the datums they read, and the keys whose signatures will be needed.
-/

namespace ConwayTx

structure LanguageFlags where
  v1 : Bool := false
  v2 : Bool := false
  v3 : Bool := false
  deriving DecidableEq, Repr

namespace LanguageFlags

def note (f : LanguageFlags) (s : Script) : LanguageFlags :=
  match s.language? with
  | some .v1 => { f with v1 := true }
  | some .v2 => { f with v2 := true }
  | some .v3 => { f with v3 := true }
  | none => f

def any (f : LanguageFlags) : Bool := f.v1 || f.v2 || f.v3

end LanguageFlags

abbrev Budgets := OrdMap RedeemerPointer ExUnits

namespace Redeemer

def spread (budget : ExUnits) (rs : List Redeemer) : List Redeemer :=
  let count := UInt64.ofNat rs.length
  rs.map (fun r => { r with units := ⟨budget.mem / count, budget.steps / count⟩ })

/-- Writes budgets into the redeemers in turn, up to the first that has none. -/
def applyBudgets (budgets : Budgets) : List Redeemer → List Redeemer × Except BuildError Unit
  | [] => ([], .ok ())
  | r :: rest =>
    match budgets.get? r.pointer with
    | none => (r :: rest, .error (.noBudget r.pointer))
    | some units =>
      let (written, outcome) := applyBudgets budgets rest
      ({ r with units := units } :: written, outcome)

end Redeemer

structure Resolution where
  redeemers : List Redeemer := []
  datums : List PlutusData := []
  scripts : List Script := []
  languages : OrdSet Language := ∅
  keys : OrdSet KeyHash := ∅

namespace Resolution

def needsCollateral (r : Resolution) : Bool := !r.redeemers.isEmpty

def totalUnits (r : Resolution) : ExUnits := ExUnits.sum (r.redeemers.map Redeemer.units)

def spread (r : Resolution) (budget : ExUnits) : Resolution :=
  { r with redeemers := Redeemer.spread budget r.redeemers }

def withBudgets (r : Resolution) (budgets : Budgets) : Except BuildError Resolution :=
  match Redeemer.applyBudgets budgets r.redeemers with
  | (redeemers, .ok ()) => .ok { r with redeemers := redeemers }
  | (_, .error e) => .error e

def scriptDataHash (r : Resolution) (m : CostModels) : Except BuildError (Option (Hash 32)) :=
  if r.redeemers.isEmpty && r.datums.isEmpty then .ok none
  else
    match m.languageViews r.languages with
    | .ok views => .ok (some (integrityHash r.redeemers r.datums views))
    | .error l => .error (.noCostModel l)

def witnesses (r : Resolution) : Witnesses :=
  r.scripts.foldl Witnesses.addScript { datums := r.datums, redeemers := r.redeemers }

end Resolution

abbrev DatumSource := DatumHash → Option PlutusData

namespace Draft

def referencedScripts (d : Draft) (inputs : List Utxo) : OrdMap ScriptHash Script :=
  let scripts := (d.referenced ++ inputs).filterMap (·.output.scriptRef)
  OrdMap.ofList (scripts.map (fun s => (s.hash, s)))

/-- The datum to carry for an input that a Plutus script guards. A datum that came with the input
has to match; only the last language does without any. -/
def spendDatum (d : Draft) (source : DatumSource) (u : Utxo) (language : Language) :
    Except BuildError (Option (DatumHash × PlutusData)) :=
  match u.output.datum with
  | some (.hash h) =>
    match (d.inputs.get? u.ref).bind Pinned.datum with
    | some data => if data.hash = h then .ok (some (h, data)) else .error (.datumMismatch u.ref)
    | none =>
      match (d.datums.get? h).or (source h) with
      | some data => .ok (some (h, data))
      | none => .error (.missingDatum u.ref)
  | some (.inline _) => .ok none
  | none => if language = .v3 then .ok none else .error (.missingDatum u.ref)

def spentAt (inputs : List Utxo) (pointer : RedeemerPointer) : Option Utxo :=
  if pointer.purpose = .spend then inputs[pointer.index.toNat]? else none

def resolveOne (d : Draft) (source : DatumSource) (inputs : List Utxo)
    (referenced : OrdMap ScriptHash Script) (acc : Resolution × OrdMap DatumHash PlutusData)
    (q : Requirement) : Except BuildError (Resolution × OrdMap DatumHash PlutusData) :=
  let (r, datums) := acc
  match (d.scripts.get? q.script).or (referenced.get? q.script), q.redeemer with
  | none, _ => .error (.missingScript q.script)
  | some (.native s), none => .ok ({ r with keys := r.keys.union s.keysIn }, datums)
  | some (.native _), some _ => .error (.nativeRedeemer q.script)
  | some (.plutus _ _), none => .error (.missingRedeemer q.pointer)
  | some (.plutus language _), some data => do
    let found ←
      match spentAt inputs q.pointer with
      | some u => d.spendDatum source u language
      | none => .ok none
    let datums := match found with | some (h, datum) => datums.insert h datum | none => datums
    return ({ r with
      languages := r.languages.add language
      redeemers := r.redeemers ++ [⟨q.pointer, data, .zero⟩] }, datums)

def signingKeys (d : Draft) (inputs : List Utxo) : List KeyHash :=
  d.requiredSigners.keys ++
  inputs.filterMap (fun u => u.output.address.paymentCredential?.bind Credential.keyHash?) ++
  d.certificates.filterMap (fun c => c.action.witness?.bind Credential.keyHash?) ++
  d.withdrawals.keys.filterMap (·.credential.keyHash?) ++
  d.votes.keys.filterMap (·.credential.keyHash?)

/-- The attached scripts that no input brings along. -/
def carriedScripts (d : Draft) (referenced : OrdMap ScriptHash Script) : List Script :=
  (d.scripts.filter (fun h _ => !referenced.contains h)).values

def mentionedKeys (scripts : List Script) : List KeyHash :=
  scripts.flatMap (fun s => match s with | .native n => n.keysIn | .plutus _ _ => [])

def resolve (d : Draft) (source : DatumSource) (inputs : List Utxo) :
    Except BuildError Resolution := do
  let requirements ← d.requirements inputs
  let referenced := d.referencedScripts inputs
  let (r, datums) ← requirements.foldlM (d.resolveOne source inputs referenced) ({}, d.datums)
  let carried := d.carriedScripts referenced
  return { r with
    redeemers := Ranked.sortOn Redeemer.pointer r.redeemers
    datums := datums.values
    scripts := carried
    keys := (r.keys.union (mentionedKeys carried)).union (d.signingKeys inputs) }

end Draft

end ConwayTx
