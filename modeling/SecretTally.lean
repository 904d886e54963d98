import SecretTally.Ciphertext
import SecretTally.Election.Report
import SecretTally.Main
import SecretTally.Proofs.Number.Decimal
import SecretTally.Proofs.Refusal
import SecretTally.Proofs.Residue.Power
import SecretTally.Random.ByteStream
import SecretTally.Wire.Printer
import SecretTally.Wire.Reader
import SecretTally.Proofs.PublicKey.Point
import SecretTally.Proofs.Random.Outcome
import SecretTally.Proofs.Proof.Commitment
import SecretTally.Proofs.Proof.Check
import SecretTally.Proofs.Proof.Closing
import SecretTally.Proofs.Proof.Fresh
import SecretTally.Proofs.Proof.Sum
import SecretTally.Proofs.Ciphertext
import SecretTally.Proofs.Proof.Subgroup
import SecretTally.Proofs.Random.Tape
import SecretTally.Proofs.Proof.Ragged
import SecretTally.Proofs.Proof.OpenBranch
import SecretTally.Proofs.Proof.Hiding
import SecretTally.Proofs.Proof.Disclosure
import SecretTally.Proofs.Proof.Acceptance
import SecretTally.Proofs.Proof.Extraction
import SecretTally.Proofs.Proof.Binding
import SecretTally.Proofs.Proof.Tampering
import SecretTally.Proofs.Text.Utf8
import SecretTally.Proofs.Wire.Item
import SecretTally.Proofs.Wire.Reader
import SecretTally.Proofs.Wire.RoundTrip
import SecretTally.Wire.Position
import SecretTally.Proofs.Wire.Position
import SecretTally.Proofs.Wire.Grammar
import SecretTally.Proofs.Election.Tally
import SecretTally.Proofs.Proof.HashedText
import SecretTally.Proofs.Random.Draws
import SecretTally.Proofs.Proof.Consumption
import SecretTally.Proofs.Proof.Symmetry
import SecretTally.Number.Words
import SecretTally.Proofs.Number.Words
import SecretTally.Proofs.Domain.Sum
import SecretTally.Proofs.PublicKey.Validation
import SecretTally.Proofs.Proof.Branchless
import SecretTally.Domain.Words
import SecretTally.Proofs.Domain.Words
import SecretTally.Proofs.Residue.Bounded
import SecretTally.Proof.Revision
import SecretTally.Proofs.Proof.Revision
import SecretTally.Proofs.PublicKey.Action
import SecretTally.Checked
import SecretTally.Number.Buffer
import SecretTally.Proofs.Number.Bytes
import SecretTally.Proofs.Residue.Reduction
import SecretTally.Proofs.Text.Quoted
import SecretTally.Proofs.Wire.Violation
import SecretTally.Proof.Scan
import SecretTally.Proofs.Proof.Scan
