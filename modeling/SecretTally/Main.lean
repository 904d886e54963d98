import SecretTally.Election.Report
import SecretTally.Random.ByteStream

/-! The command line: holds a sample election and prints its events. -/

namespace SecretTally

def usage : String :=
  "Encrypt, tally and verify a yes/no election\n\n" ++
  "Options:\n" ++
  "      --voters <VOTERS>  Number of voters [default: 10]\n" ++
  "      --bits <BITS>      Bit length of the safe prime p [default: 256]\n" ++
  "      --seed <SEED>      Seed for a reproducible run\n" ++
  "  -h, --help             Print help"

def Event.line (event : Event) : String :=
  event.fields.foldl (fun line (name, value) => line ++ s!" {name}={value}") event.text

def seedFor (o : Options) : IO Nat :=
  match o.seed with
  | some seed => return seed
  | none => IO.rand 0 (Decimal.wordLimit - 1)

def holdElection (o : Options) : IO UInt32 := do
  let seed ← seedFor o
  let report := Election.hold o (ByteStream.start [] seed.toUInt64)
  for event in report.events do
    IO.println event.line
  match report.failure with
  | none => return 0
  | some why =>
    IO.eprintln ("Error: " ++ why.message)
    return 1

end SecretTally

def main (args : List String) : IO UInt32 := do
  match SecretTally.Options.read args with
  | .run options => SecretTally.holdElection options
  | .help =>
    IO.println SecretTally.usage
    return 0
  | .misuse =>
    IO.eprintln "error: unexpected arguments; try --help"
    return 2
