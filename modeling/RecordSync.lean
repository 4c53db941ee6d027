import RecordSync.Proofs.Binary64
import RecordSync.Proofs.Controller.Returning
import RecordSync.Proofs.Controller.Showing
import RecordSync.Proofs.Convergence.Fleet
import RecordSync.Proofs.Packed.Wire
import RecordSync.Proofs.Record.Lives
import RecordSync.Proofs.Record.Matching
import RecordSync.Proofs.Record.NormalForm
import RecordSync.Proofs.Record.Notices
import RecordSync.Proofs.Refilling
import RecordSync.Proofs.Schedule
import RecordSync.Proofs.Store.Commuting
import RecordSync.Proofs.Store.Siblings
import RecordSync.Proofs.Store.Stock
import RecordSync.Settings.Reader
import RecordSync.Simulation.Clients
