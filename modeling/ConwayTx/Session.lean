import ConwayTx.Balance
import ConwayTx.Intent.Steps

namespace ConwayTx

inductive Phase
  | building
  | failed (e : BuildError)
  | built

structure Session where
  setup : Setup
  work : Work
  phase : Phase := .building

namespace Session

def genesisOf (magic : Option UInt32) : Genesis :=
  (magic.bind Genesis.ofMagic?).getD Genesis.mainnet

/-- A session without intents. The configured network goes before that of the chain. -/
def start (s : Setup) (chainMagic : Option UInt32) : Session :=
  { setup := s, work := { genesis := genesisOf (s.config.networkMagic.or chainMagic) } }

def apply (s : Session) (i : Intent) : Session :=
  match s.phase with
  | .failed _ => s
  | .built => { s with phase := .failed .alreadyBuilt }
  | .building =>
    match i.steps s.setup.params s.work with
    | .ok _ w => { s with work := w }
    | .error e w => { s with work := w, phase := .failed e }

/-- Balances the draft, which is used up whether that succeeds or not. -/
def build (s : Session) : Session × Except BuildError Tx :=
  match s.phase with
  | .failed e => (s, .error e)
  | .built => (s, .error .alreadyBuilt)
  | .building =>
    let emptied := { s.work with draft := {} }
    match balance s.setup s.work.draft s.work.pools with
    | .ok tx => ({ s with work := emptied, phase := .built }, .ok tx)
    | .error e => ({ s with work := emptied, phase := .failed e }, .error e)

end Session

end ConwayTx
