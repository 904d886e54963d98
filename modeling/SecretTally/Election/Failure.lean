import SecretTally.Refusal

/-! What can end an election before its result is known. Voters are numbered from zero. -/

namespace SecretTally

inductive ElectionFailure where
  | noVoters
  | primeSize
  | noPrime
  | groupParameters
  | electionKey
  | encryption (voter : Nat)
  | ballotRejected (voter : Nat)
  | addition (voter : Nat)
  | refused (why : Refusal)
  | noBallots
  | proofText
  | tallyRejected
  | unknownTally
  | wrongTally (decrypted expected : Nat)
deriving DecidableEq

def ElectionFailure.message : ElectionFailure → String
  | .noVoters => "at least one voter is required"
  | .primeSize => "prime size must be between 16 and 2048 bits"
  | .noPrime => "no safe prime was found"
  | .groupParameters => "failed to assemble the group parameters"
  | .electionKey => "failed to assemble the election key"
  | .encryption voter => s!"failed to encrypt the ballot of voter {voter}"
  | .ballotRejected voter => s!"ballot of voter {voter} failed to verify"
  | .addition voter => s!"failed to add the ballot of voter {voter}"
  | .refused why => why.message
  | .noBallots => "no ballots were cast"
  | .proofText => "failed to decode the published tally proof"
  | .tallyRejected => "the tally proof failed to verify"
  | .unknownTally => "tally is outside its domain"
  | .wrongTally decrypted expected =>
    s!"the final tally is incorrect: decrypted {decrypted}, expected {expected}"

end SecretTally
