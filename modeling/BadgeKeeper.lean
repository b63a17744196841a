import BadgeKeeper.Lib.Machine
import BadgeKeeper.Lib.Heap
import BadgeKeeper.Lib.Outbox
import BadgeKeeper.Lib.Delivery
import BadgeKeeper.Lib.Unicode
import BadgeKeeper.Lib.Json
import BadgeKeeper.Foundation
import BadgeKeeper.Models
import BadgeKeeper.Responses
import BadgeKeeper.Requests
import BadgeKeeper.Storage
import BadgeKeeper.Client
import BadgeKeeper.Steps
import BadgeKeeper.Refinement
import BadgeKeeper.Ledger
import BadgeKeeper.Conservation
import BadgeKeeper.Server
import BadgeKeeper.Decoding
import BadgeKeeper.Reactions
import BadgeKeeper.Rewards
import BadgeKeeper.Dispatch
import BadgeKeeper.Lib.Path
import BadgeKeeper.Routing
import BadgeKeeper.Body
import BadgeKeeper.Isolation
import BadgeKeeper.Lib.JsonText
import BadgeKeeper.Wire
import BadgeKeeper.ActiveUser
import BadgeKeeper.Answers
import BadgeKeeper.Symmetry
import BadgeKeeper.Lib.Schema
import BadgeKeeper.Schemas
import BadgeKeeper.Encoding
import BadgeKeeper.Lib.Nulls
import BadgeKeeper.NullMembers
import BadgeKeeper.Sending
import BadgeKeeper.Launches
import BadgeKeeper.Lib.Percent
import BadgeKeeper.Receiver
import BadgeKeeper.Lib.JsonPrint
import BadgeKeeper.Replies
import BadgeKeeper.Lib.Base64
import BadgeKeeper.Icons
import BadgeKeeper.Service
import BadgeKeeper.Sample.Numbers
import BadgeKeeper.Sample.ResponseText
import BadgeKeeper.Sample.Controller
import BadgeKeeper.Sample.Screen
import BadgeKeeper.Sample.Clicks
import BadgeKeeper.Sample.Exchanges
