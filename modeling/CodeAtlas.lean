import CodeAtlas.Logger
import CodeAtlas.Command.Audit
import CodeAtlas.Command.Catalog
import CodeAtlas.Command.Project
import CodeAtlas.Proofs.Index.Requests
import CodeAtlas.Proofs.Catalog.Integrity
import CodeAtlas.Proofs.Locate.Deletion
import CodeAtlas.Proofs.Index.Stability
import CodeAtlas.Proofs.Audit.Containment
import CodeAtlas.Proofs.Audit.Defaults
import CodeAtlas.Proofs.Audit.Events
import CodeAtlas.Proofs.Index.Nesting
import CodeAtlas.Proofs.Annotations
import CodeAtlas.Proofs.Decorators
import CodeAtlas.Proofs.Script
import CodeAtlas.Proofs.Summary
import CodeAtlas.Proofs.Catalog.Descriptions
import CodeAtlas.Proofs.Locate.Extent
import CodeAtlas.Proofs.Locate.ModuleLines
import CodeAtlas.Proofs.Index.FileLists
import CodeAtlas.Proofs.Confinement
import CodeAtlas.Proofs.Files.Pruning
import CodeAtlas.Proofs.Settings
import CodeAtlas.Proofs.Check
import CodeAtlas.Proofs.Digest
