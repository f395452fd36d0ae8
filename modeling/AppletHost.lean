import AppletHost.Bridge.Network
import AppletHost.Config.Load
import AppletHost.Expr.Printer
import AppletHost.Hosting.Run
import AppletHost.Logging.Directive
import AppletHost.Push.Client
import AppletHost.Proofs.Expr.Grammar
import AppletHost.Proofs.Expr.Soundness
import AppletHost.Proofs.Expr.Completeness
import AppletHost.Proofs.Expr.Depth
import AppletHost.Proofs.Sandbox.Clearing
import AppletHost.Proofs.Sandbox.StateLog
import AppletHost.Proofs.Expr.Scanning
import AppletHost.Proofs.Template.Embedding
import AppletHost.Proofs.Template.Dependence
import AppletHost.Proofs.Template.Loops
import AppletHost.Proofs.Template.StartTags
import AppletHost.Proofs.Hosting.Ports
import AppletHost.Proofs.Push.Connections
import AppletHost.Proofs.Hosting.Bookkeeping
import AppletHost.Proofs.Hosting.Showing
import AppletHost.Proofs.Hosting.Viewing
import AppletHost.Proofs.Push.Replies
import AppletHost.Proofs.Push.Broadcasts
import AppletHost.Proofs.Hosting.Joining
import AppletHost.Proofs.Hosting.Streaming
import AppletHost.Proofs.Json.Plain
import AppletHost.Proofs.Hosting.EventReading
import AppletHost.Proofs.Bridge.Deliveries
import AppletHost.Proofs.Bridge.Networks
import AppletHost.Proofs.Sandbox.Commands
import AppletHost.Proofs.Sandbox.Visits
import AppletHost.Proofs.Hosting.Leases
import AppletHost.Proofs.Config.Precedence
import AppletHost.Proofs.Push.Reconnecting
import AppletHost.Proofs.Push.Backoff
import AppletHost.Proofs.Push.Framing
import AppletHost.Proofs.Push.Inbound
import AppletHost.Proofs.Sandbox.Timetable
import AppletHost.Proofs.Sandbox.Updates
import AppletHost.Proofs.Markup.Capping
import AppletHost.Proofs.Markup.Depth
import AppletHost.Proofs.Hosting.Offers
import AppletHost.Proofs.Hosting.Confinement
import AppletHost.Proofs.Sandbox.Registration
import AppletHost.Proofs.Sandbox.Pacing
import AppletHost.Proofs.Template.Recompiling
import AppletHost.Proofs.Template.Splitting
import AppletHost.Proofs.Expr.Lexemes
import AppletHost.Proofs.Sandbox.Phases
