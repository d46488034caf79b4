import AirRelease.Host
import AirRelease.Main
import AirRelease.Store.LockTable
import AirRelease.Store.Memory
import AirRelease.Proofs.Registry.Footprint
import AirRelease.Proofs.Registry.Names
import AirRelease.Proofs.Registry.Shape
import AirRelease.Proofs.History.Pending
import AirRelease.Proofs.History.LatestPatch
import AirRelease.Proofs.History.RollingBack
import AirRelease.Proofs.History.Duplicates
import AirRelease.Proofs.Bundle.Manifest
import AirRelease.Proofs.Service.Unchanged
import AirRelease.Proofs.Service.Interchange
import AirRelease.Proofs.Service.Isolation
import AirRelease.Proofs.Service.View
import AirRelease.Proofs.Locking.Exclusive
import AirRelease.Proofs.Locking.Takeover
import AirRelease.Proofs.History.Repatching
import AirRelease.Proofs.Bundle.Listing
import AirRelease.Proofs.Directory.Saving
import AirRelease.Proofs.Service.Removal
import AirRelease.Proofs.Email.Variant
import AirRelease.Proofs.VersionRange.Bounds
import AirRelease.Proofs.Config.Template
import AirRelease.Proofs.Registry.Undo
import AirRelease.Proofs.Service.Provenance
import AirRelease.Proofs.Label.Numbering
import AirRelease.Proofs.Directory.Names
import AirRelease.Proofs.VersionRange.Spacing
