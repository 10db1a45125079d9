import SectorVault.Cache.Contents
import SectorVault.ChecksumTable
import SectorVault.Group.Splitter
import SectorVault.Handle
import SectorVault.Proofs.Archive.Answers
import SectorVault.Proofs.Archive.Filtering
import SectorVault.Proofs.Archive.Naming
import SectorVault.Proofs.Archive.Nesting
import SectorVault.Proofs.Archive.Remembered
import SectorVault.Proofs.Archive.Unnamed
import SectorVault.Proofs.Archive.Verification
import SectorVault.Proofs.Cache.Checksums
import SectorVault.Proofs.Cache.Enumeration
import SectorVault.Proofs.Cache.History
import SectorVault.Proofs.Cache.Loading
import SectorVault.Proofs.Cache.ReadBack
import SectorVault.Proofs.Cipher.Blocks
import SectorVault.Proofs.Cipher.Xtea
import SectorVault.Proofs.Compression.Reading
import SectorVault.Proofs.Container.Bounded
import SectorVault.Proofs.Container.Confinement
import SectorVault.Proofs.Container.Decoding
import SectorVault.Proofs.Container.Sealing
import SectorVault.Proofs.Group.Entries
import SectorVault.Proofs.Group.Overflow
import SectorVault.Proofs.Group.Splitting
import SectorVault.Proofs.Group.Unpacking
import SectorVault.Proofs.NameHash
import SectorVault.Proofs.ReferenceTable.Calls
import SectorVault.Proofs.ReferenceTable.Capacity
import SectorVault.Proofs.ReferenceTable.Extent
import SectorVault.Proofs.ReferenceTable.Lookup
import SectorVault.Proofs.ReferenceTable.Ranges
import SectorVault.Proofs.ReferenceTable.RoundTrip
import SectorVault.Proofs.ReferenceTable.Scanning
import SectorVault.Proofs.Store.Appending
import SectorVault.Proofs.Store.Chain
import SectorVault.Proofs.Store.Image
import SectorVault.Proofs.Store.Layout
import SectorVault.Proofs.Store.Locality
import SectorVault.Proofs.Store.Visits
import SectorVault.Store.Layout
