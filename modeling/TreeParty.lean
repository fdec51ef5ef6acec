import TreeParty.Binary64.Bits
import TreeParty.Link.Mailbox
import TreeParty.Link.Network
import TreeParty.Main
import TreeParty.Proofs.Exchange.Run
import TreeParty.Proofs.Link.MailRoom
import TreeParty.Proofs.Field.Codec
import TreeParty.Proofs.Sharing.Sums
import TreeParty.Proofs.Client.Shares
import TreeParty.Proofs.Client.Inputs
import TreeParty.Proofs.Client.Operations
import TreeParty.Proofs.Binary64.Count
import TreeParty.Proofs.Client.Numbers
import TreeParty.Proofs.Column.Order
import TreeParty.Proofs.Column.Splits
import TreeParty.Proofs.Session.Schedule
import TreeParty.Proofs.Binary64.Magnitude
import TreeParty.Proofs.Dataset.Peak
import TreeParty.Proofs.Dataset.Fit
import TreeParty.Proofs.Link.Connect
import TreeParty.Proofs.Link.Contacts
import TreeParty.Proofs.Run.Completion
import TreeParty.Proofs.Field.RoundTrip
import TreeParty.Proofs.Link.Double
import TreeParty.Proofs.Client.Hiding
import TreeParty.Proofs.Session.Traffic
import TreeParty.Proofs.Session.Release
import TreeParty.Proofs.Column.Decoding
import TreeParty.Proofs.Session.Arrival
import TreeParty.Proofs.Log.Redaction
import TreeParty.Proofs.Run.LocalFiles
import TreeParty.Proofs.FixedPoint.Nearest
import TreeParty.Proofs.FixedPoint.RoundTrip
import TreeParty.Proofs.Binary64.Midpoint
import TreeParty.Proofs.Column.Rank
import TreeParty.Proofs.Column.Thresholds
import TreeParty.Proofs.Column.Bins
import TreeParty.Proofs.Indicator.Thresholds
import TreeParty.Proofs.Indicator.Classes
import TreeParty.Proofs.Column.Rearrangement
import TreeParty.Proofs.Client.Tampering
import TreeParty.Proofs.Client.Refusals
import TreeParty.Proofs.Column.Indexes
import TreeParty.Proofs.Field.Expression
import TreeParty.Proofs.Dataset.Preparation
import TreeParty.Proofs.Settings.Dictionary
import TreeParty.Proofs.Settings.Updates
