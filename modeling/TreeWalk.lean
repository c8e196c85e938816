import TreeWalk.Tree.Equality
import TreeWalk.Main
import TreeWalk.Proofs.Bare
import TreeWalk.Proofs.Grammar
import TreeWalk.Proofs.Reading
import TreeWalk.Proofs.Soundness
import TreeWalk.Proofs.Completeness
import TreeWalk.Proofs.Rendering
import TreeWalk.Proofs.Calls
import TreeWalk.Proofs.Clean
import TreeWalk.Proofs.Walk
import TreeWalk.Proofs.Exceptions
import TreeWalk.Proofs.CallLimit
import TreeWalk.Proofs.Parts
import TreeWalk.Proofs.Frame
import TreeWalk.Proofs.Layout
import TreeWalk.Proofs.Lexemes
import TreeWalk.Proofs.Locality
import TreeWalk.Proofs.Sequences
import TreeWalk.Proofs.Spans
import TreeWalk.Proofs.Blame
import TreeWalk.Proofs.Sessions
import TreeWalk.Proofs.Concatenation
import TreeWalk.Proofs.Transcripts
import TreeWalk.Proofs.Moments
import TreeWalk.Proofs.Containment
import TreeWalk.Proofs.Ancestors
import TreeWalk.Proofs.Locations
import TreeWalk.Proofs.Derivations
import TreeWalk.Proofs.Spelling
import TreeWalk.Proofs.Termination
import TreeWalk.Proofs.CanonicalText
import TreeWalk.Proofs.Parallel
import TreeWalk.Proofs.Correspondence
import TreeWalk.Proofs.InStep
import TreeWalk.Proofs.Lockstep
import TreeWalk.Proofs.Omissions
import TreeWalk.Proofs.Forest
import TreeWalk.Proofs.Viability
import TreeWalk.Proofs.Visibility
import TreeWalk.Proofs.Depth
import TreeWalk.Proofs.Stalls
import TreeWalk.Proofs.FirstFault
import TreeWalk.Proofs.Recovery
import TreeWalk.Proofs.Displacement
import TreeWalk.Proofs.Tokenisation
import TreeWalk.Proofs.Flaws
import TreeWalk.Proofs.Separators
import TreeWalk.Proofs.SelfContained
import TreeWalk.Proofs.Repetition
import TreeWalk.Proofs.Arithmetic
import TreeWalk.Proofs.Nesting
import TreeWalk.Proofs.Unambiguity
import TreeWalk.Proofs.Unmentioned
import TreeWalk.Proofs.Stream
import TreeWalk.Proofs.Allowances
import TreeWalk.Proofs.Progress
import TreeWalk.Proofs.EndMarkers
