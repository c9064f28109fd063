import SlotRegistry.Detector.Floor
import SlotRegistry.Proofs.Detector.Guards
import SlotRegistry.Proofs.Machine.Deferral
import SlotRegistry.Proofs.Machine.Extent
import SlotRegistry.Proofs.Machine.Glances
import SlotRegistry.Proofs.Machine.Lending
import SlotRegistry.Proofs.Machine.Lifetime
import SlotRegistry.Proofs.Machine.Provenance
import SlotRegistry.Proofs.Machine.Replay
import SlotRegistry.Proofs.Machine.Telling
import SlotRegistry.Proofs.Machine.Tour
import SlotRegistry.Proofs.Machine.Waiting
import SlotRegistry.Proofs.Reference.Ownership
import SlotRegistry.Proofs.Registry.Churn
import SlotRegistry.Proofs.Registry.Commuting
import SlotRegistry.Proofs.Registry.Draining
import SlotRegistry.Proofs.Registry.FullTurn
import SlotRegistry.Proofs.Registry.Scanning
import SlotRegistry.Registry.Lemmas
import SlotRegistry.Script.Run
import SlotRegistry.Script.Solo
