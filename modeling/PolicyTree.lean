import PolicyTree.Session.Step
import PolicyTree.Proofs.Effects
import PolicyTree.Proofs.Replay
import PolicyTree.Proofs.Canonical
import PolicyTree.Proofs.Inheritance
import PolicyTree.Proofs.Discipline
import PolicyTree.Proofs.Namespace
import PolicyTree.Proofs.History
import PolicyTree.Proofs.Files
import PolicyTree.Proofs.Soundness
import PolicyTree.Proofs.Guards
import PolicyTree.Proofs.Lookups
import PolicyTree.Proofs.Switching
import PolicyTree.Proofs.Creation
import PolicyTree.Proofs.Outcomes
import PolicyTree.Proofs.Stability
import PolicyTree.Proofs.Independence
import PolicyTree.Proofs.Spelling
import PolicyTree.Proofs.Repetition
import PolicyTree.Proofs.Assignments
import PolicyTree.Proofs.Deciders
import PolicyTree.Proofs.Agreement
import PolicyTree.Proofs.Descents
import PolicyTree.Proofs.Naming
import PolicyTree.Proofs.Making
import PolicyTree.Proofs.Directories
import PolicyTree.Proofs.Depths
import PolicyTree.Proofs.OrderedMap
import PolicyTree.Proofs.Configuration
import PolicyTree.Proofs.Parameters
import PolicyTree.Proofs.Lists
import PolicyTree.Proofs.Lengths
import PolicyTree.Proofs.Faults
