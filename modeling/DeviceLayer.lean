import DeviceLayer.Bitmap.Lemmas
import DeviceLayer.Bitmap.Text
import DeviceLayer.Boundary
import DeviceLayer.Cells
import DeviceLayer.Descriptor.Lemmas
import DeviceLayer.Event.Channels
import DeviceLayer.Event.Wifi
import DeviceLayer.Layer
import DeviceLayer.Proofs.Board.Edges
import DeviceLayer.Proofs.Event.Delivery
import DeviceLayer.Proofs.Bitmap.Padding
import DeviceLayer.Proofs.Descriptor.Run
import DeviceLayer.Proofs.Descriptor.Bindings
import DeviceLayer.Proofs.Descriptor.Refinement
import DeviceLayer.Proofs.Event.Numbers
import DeviceLayer.Proofs.Event.RawNumber
import DeviceLayer.Proofs.Timer.Effect
import DeviceLayer.Proofs.Timer.Ticker
import DeviceLayer.Proofs.Board.TimerBits
import DeviceLayer.Proofs.Board.Expiries
import DeviceLayer.Proofs.Bitmap.IndexSet
import DeviceLayer.Proofs.Event.Sequence
import DeviceLayer.Proofs.Event.Commute
import DeviceLayer.Proofs.Layer.Run
import DeviceLayer.Proofs.Layer.Restart
import DeviceLayer.Proofs.Bitmap.Search
import DeviceLayer.Proofs.Descriptor.Density
import DeviceLayer.Proofs.Event.Oldest
import DeviceLayer.Proofs.Event.Refusal
import DeviceLayer.Proofs.Event.Drain
import DeviceLayer.Proofs.Timer.Period
import DeviceLayer.Proofs.Sleep.Rounds
import DeviceLayer.Proofs.Pin.Packing
import DeviceLayer.Proofs.Board.Watches
import DeviceLayer.Proofs.Timer.Outcomes
import DeviceLayer.Proofs.Sleep.Cost
