import Screego.Lib.GoMap
import Screego.Lib.Machine
import Screego.Ws.Start
import Screego.Spec.Session
import Screego.Spec.Room
import Screego.Spec.Effect
import Screego.Spec.Sound
import Screego.Spec.WellFormed
import Screego.Spec.Leaving
import Screego.Spec.Handlers
import Screego.Spec.OwnerActions
import Screego.Spec.Refinement
import Screego.Spec.Departure
import Screego.Spec.Founding
import Screego.Spec.Serving
import Screego.Properties.Membership
import Screego.Properties.Ownership
import Screego.Properties.Sharing
import Screego.Properties.Endings
import Screego.Spec.Ledger
import Screego.Properties.Credentials
import Screego.Properties.Signalling
import Screego.Properties.Views
import Screego.Properties.Isolation
import Screego.Properties.Authority
import Screego.Properties.Departed
import Screego.Properties.Bans
import Screego.Properties.Failures
import Screego.Lib.Total
import Screego.Properties.Counters
import Screego.Properties.Grammar
import Screego.Properties.Login
import Screego.Lib.Json
import Screego.Ui.UseRoom
import Screego.Properties.Wire
import Screego.Ws.Client
import Screego.Properties.Goroutines
import Screego.Ui.Room
import Screego.Properties.Races
import Screego.Properties.Succession
import Screego.Properties.Removal
import Screego.Properties.Permissions
import Screego.Properties.TurnAccess
import Screego.Config.PortRange
import Screego.Turn.PortRange
import Screego.Properties.PortRange
import Screego.Config.IPDNS
import Screego.Config.IP
import Screego.Properties.Addresses
import Screego.Ui.UseRoomID
import Screego.Properties.Links
import Screego.Spec.Once
import Screego.Ws.Once
import Screego.Properties.Once
import Screego.Net.RoundTrip
import Screego.Properties.Barring
import Screego.Lib.Bits
import Screego.Net.CIDR
import Screego.Properties.Settings
import Screego.Properties.UsersFile
import Screego.Router.Router
import Screego.Properties.Portal
import Screego.Properties.DenyPeers
import Screego.Spec.Meeting
import Screego.Properties.Meetings
import Screego.Spec.Uses
import Screego.Properties.Keys
import Screego.Lib.Unicode
import Screego.Lib.JsonString
import Screego.Lib.JsonText
import Screego.Lib.JsonWrite
import Screego.Lib.JsonCompact
import Screego.Lib.JsonDecode
import Screego.Ws.ReadTyped
import Screego.Properties.Frames
import Screego.Ws.Reading
import Screego.Ws.WriteTyped
import Screego.Properties.Relaying
