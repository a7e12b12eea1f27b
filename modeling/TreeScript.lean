import TreeScript.Main
import TreeScript.Tree.References
import TreeScript.Proofs.Parsing.Derivation
import TreeScript.Proofs.Parsing.Progress
import TreeScript.Proofs.Parsing.Identities
import TreeScript.Proofs.Parsing.Soundness
import TreeScript.Proofs.Parsing.Completeness
import TreeScript.Proofs.Parsing.Acceptance
import TreeScript.Proofs.Scoping.Parsed
import TreeScript.Proofs.Scoping.Chains
import TreeScript.Proofs.Scoping.Promises
import TreeScript.Proofs.Scoping.World
import TreeScript.Proofs.Scoping.Keeping
import TreeScript.Proofs.Scoping.Primitives
import TreeScript.Proofs.Scoping.Statements
import TreeScript.Proofs.Scoping.Execution
import TreeScript.Proofs.Scoping.Sessions
import TreeScript.Proofs.Scoping.Conditions
import TreeScript.Proofs.Scoping.Contract
import TreeScript.Proofs.Likeness.Trees
import TreeScript.Proofs.Hosting.Dialogues
import TreeScript.Proofs.Hosting.Landings
import TreeScript.Proofs.Hosting.Lifetimes
import TreeScript.Proofs.Hosting.Lowering
import TreeScript.Proofs.Hosting.Rejection
import TreeScript.Proofs.Hosting.Renaming
import TreeScript.Proofs.Hosting.Sequels
import TreeScript.Proofs.Tracking.Noting
import TreeScript.Proofs.Tracking.Tracking
import TreeScript.Proofs.Tracking.Limits
import TreeScript.Proofs.Tracking.Output
import TreeScript.Proofs.Tracking.Regimes
import TreeScript.Proofs.Tracking.Contents
import TreeScript.Proofs.Tracking.Chronicles
import TreeScript.Proofs.Tracking.Framing
import TreeScript.Proofs.Tracking.Standing
import TreeScript.Proofs.Tracking.FrameLaw
import TreeScript.Proofs.Tracking.Receivers
import TreeScript.Proofs.Tracking.SelfLaw
import TreeScript.Proofs.Numbers.Rounding
import TreeScript.Proofs.Scanning.Lexemes
import TreeScript.Proofs.Scanning.Octets
import TreeScript.Proofs.Scanning.Cursor
import TreeScript.Proofs.Scanning.Rescanning
import TreeScript.Proofs.Scanning.Tiling
import TreeScript.Proofs.Parsing.Looks
import TreeScript.Proofs.Parsing.Totality
import TreeScript.Proofs.Scanning.Agreement
import TreeScript.Proofs.Scanning.Comments
import TreeScript.Proofs.Parsing.EndMarks
import TreeScript.Proofs.Likeness.Shifting
import TreeScript.Proofs.Parsing.Settling
import TreeScript.Proofs.Parsing.Confinement
import TreeScript.Proofs.Parsing.MissingOperands
import TreeScript.Proofs.Scoping.Places
import TreeScript.Proofs.Scoping.Lexical
import TreeScript.Proofs.Scoping.Listings
import TreeScript.Proofs.Scoping.ScopeStack
import TreeScript.Proofs.Running.CountingLoops
import TreeScript.Proofs.Running.Composition
import TreeScript.Proofs.Scoping.Access
import TreeScript.Proofs.Parsing.Formation
import TreeScript.Proofs.Hosting.Reports
import TreeScript.Proofs.Printing.Forms
import TreeScript.Proofs.Printing.Outlines
import TreeScript.Proofs.Printing.Words
import TreeScript.Proofs.Printing.Postfix
import TreeScript.Proofs.Printing.TreeForms
import TreeScript.Proofs.Printing.Prefix
