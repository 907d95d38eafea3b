import SourceIndex.Http
import SourceIndex.Job.Memory
import SourceIndex.Main
import SourceIndex.Proofs.Archive.Accounting
import SourceIndex.Proofs.Archive.PathFilter
import SourceIndex.Proofs.Checked.Files
import SourceIndex.Proofs.Chunk.Addresses
import SourceIndex.Proofs.Chunk.Occurrences
import SourceIndex.Proofs.Entity.Bodies
import SourceIndex.Proofs.Entity.Cells
import SourceIndex.Proofs.Entity.Comments
import SourceIndex.Proofs.Entity.Depths
import SourceIndex.Proofs.Entity.Limits
import SourceIndex.Proofs.Entity.Members
import SourceIndex.Proofs.Entity.Methods
import SourceIndex.Proofs.Entity.SelfCalls
import SourceIndex.Proofs.Http.Refusals
import SourceIndex.Proofs.Job.Claims
import SourceIndex.Proofs.Job.ReadBack
import SourceIndex.Proofs.Remote.Ceiling
import SourceIndex.Proofs.Remote.Retries
import SourceIndex.Proofs.Service.Checkpoints
import SourceIndex.Proofs.Service.Exclusion
import SourceIndex.Proofs.Service.Rebuild
import SourceIndex.Proofs.VectorIndex.Counts
import SourceIndex.Proofs.VectorIndex.Fallback
import SourceIndex.Proofs.VectorIndex.Search
import SourceIndex.Proofs.VectorIndex.Termination
import SourceIndex.Proofs.VectorIndex.Uploads
import SourceIndex.VectorIndex.Recorded
