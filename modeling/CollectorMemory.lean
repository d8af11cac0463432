import CollectorMemory.Allocator.Basic
import CollectorMemory.Candidates.Population
import CollectorMemory.Options.Environment
import CollectorMemory.Proofs.Allocator.Lockstep
import CollectorMemory.Proofs.Arena.Lockstep
import CollectorMemory.Proofs.Candidates.Accounting
import CollectorMemory.Proofs.Candidates.Adding
import CollectorMemory.Proofs.Candidates.Draining
import CollectorMemory.Proofs.Candidates.Late
import CollectorMemory.Proofs.Candidates.Ranking
import CollectorMemory.Proofs.Candidates.Rebuild
import CollectorMemory.Proofs.Candidates.Visiting
import CollectorMemory.Proofs.Canonical
import CollectorMemory.Proofs.Lockstep
import CollectorMemory.Proofs.Node.Lockstep
import CollectorMemory.Proofs.Node.Twin
import CollectorMemory.Proofs.NodeList.Numbers
import CollectorMemory.Proofs.Occupancy.Refinement
import CollectorMemory.Proofs.Options.RoundTrip
import CollectorMemory.Proofs.Pool.Canonical
import CollectorMemory.Proofs.Pool.Lockstep
import CollectorMemory.Proofs.Serving
import CollectorMemory.Proofs.Session.Agreement
import CollectorMemory.Proofs.Session.Carving
import CollectorMemory.Proofs.Session.ClassSpace
import CollectorMemory.Proofs.Session.Coalescing
import CollectorMemory.Proofs.Session.Growth
import CollectorMemory.Proofs.Session.HandingOut
import CollectorMemory.Proofs.Session.Isolation
import CollectorMemory.Proofs.Session.Lockstep
import CollectorMemory.Proofs.Session.Lookup
import CollectorMemory.Proofs.Session.Partition
import CollectorMemory.Proofs.Session.Purging
import CollectorMemory.Proofs.Session.Repetition
import CollectorMemory.Proofs.Session.Returning
import CollectorMemory.Proofs.Session.Safety
import CollectorMemory.Proofs.Chunk.RoundTrip
import CollectorMemory.Proofs.Node.Commit
import CollectorMemory.Proofs.Node.Confined
import CollectorMemory.Proofs.Options.Bulk
import CollectorMemory.Proofs.Pool.Confined
import CollectorMemory.Proofs.Arena.Confined
import CollectorMemory.Proofs.Arena.Oversized
import CollectorMemory.Proofs.Allocator.Confined
import CollectorMemory.Proofs.Session.Oversized
import CollectorMemory.Proofs.Options.Environment
import CollectorMemory.Proofs.Occupancy.Verdict
import CollectorMemory.Proofs.Session.Payload
