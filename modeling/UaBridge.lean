import UaBridge.Bridge.Batch
import UaBridge.Proofs.Bridge.Batch
import UaBridge.Proofs.Bridge.Checks
import UaBridge.Proofs.Bridge.Depth
import UaBridge.Proofs.Bridge.Elementwise
import UaBridge.Proofs.Bridge.Extension
import UaBridge.Proofs.Bridge.Integer
import UaBridge.Proofs.Bridge.Lookup
import UaBridge.Proofs.Bridge.Missing
import UaBridge.Proofs.Bridge.Refusals
import UaBridge.Proofs.Bridge.Reshape
import UaBridge.Proofs.Bridge.Shuffle
import UaBridge.Proofs.Bridge.Supply
import UaBridge.Proofs.Plant.History
import UaBridge.Proofs.Schema.Aliases
import UaBridge.Proofs.Schema.Entries
import UaBridge.Proofs.Schema.Loaders
import UaBridge.Proofs.Schema.Reordering
import UaBridge.Proofs.Schema.Walk
import UaBridge.Proofs.Session
import UaBridge.Schema.NodeSet
import UaBridge.Schema.TypeDocument
import UaBridge.Session
import UaBridge.SettingsDocument
