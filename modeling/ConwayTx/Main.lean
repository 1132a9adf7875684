import ConwayTx.Cli

open ConwayTx

def readIfThere (name : String) : IO (Option String) := do
  try
    return some (← IO.FS.readFile name)
  catch _ =>
    return none

def main (args : List String) : IO UInt32 := do
  let names := ((Cli.Options.parse? args).map Cli.Options.files).getD []
  let contents ← names.mapM (fun name => do return (name, ← readIfThere name))
  match Cli.run args (fun name => (contents.lookup name).join) with
  | .ok line =>
    IO.println line
    return 0
  | .error e =>
    IO.eprintln s!"Error: {e.message}"
    return 1
