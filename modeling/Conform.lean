import Conform.Session
import Conform.Schema.Named
import Conform.Stock.Type
import Conform.Proofs.FastPath
import Conform.Proofs.AbortEarly
import Conform.Proofs.Location
import Conform.Proofs.Data
import Conform.Proofs.Returns
import Conform.Proofs.Suitability
import Conform.Proofs.TotalKeys
import Conform.Proofs.Totality
import Conform.Proofs.Manner
import Conform.Proofs.Protocol
import Conform.Proofs.Acceptance
import Conform.Proofs.Steady
import Conform.Proofs.Completeness
import Conform.Proofs.Erase
import Conform.Proofs.Erasure
import Conform.Proofs.Keys
import Conform.Proofs.Copying
import Conform.Proofs.Lasting
import Conform.Proofs.LastingItems
import Conform.Proofs.LastingEntries
import Conform.Proofs.LastingObjects
import Conform.Proofs.Wholeness
import Conform.Proofs.RoundTrip
import Conform.Proofs.Abreast
import Conform.Proofs.Node
import Conform.Proofs.Indifference
import Conform.Proofs.Levels
import Conform.Proofs.Outputs
import Conform.Proofs.Sizes
import Conform.Proofs.Chain
import Conform.Proofs.Arrangement
import Conform.Proofs.Removal
import Conform.Proofs.FinalKeys
import Conform.Proofs.Determinism
import Conform.Proofs.Contributions
import Conform.Proofs.Isolation
import Conform.Proofs.Declared
import Conform.Proofs.Merging
import Conform.Proofs.Orderly
import Conform.Proofs.Grouping
import Conform.Proofs.Intersection
import Conform.Proofs.NestedIntersection
import Conform.Proofs.Strictness
import Conform.Proofs.Flattening
import Conform.Proofs.Presence
import Conform.Proofs.Optionality
import Conform.Proofs.Splitting
import Conform.Proofs.Precedence
import Conform.Proofs.Multiples
import Conform.Proofs.IntegerTexts
import Conform.Proofs.Identifiers
import Conform.Proofs.Addresses
import Conform.Proofs.Moments
import Conform.Proofs.Preparation
