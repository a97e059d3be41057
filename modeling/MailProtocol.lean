import MailProtocol.Bytes.Basic
import MailProtocol.Bytes.Decimal
import MailProtocol.Bytes.Search
import MailProtocol.Bytes.Split
import MailProtocol.Config.Basic
import MailProtocol.Config.Load
import MailProtocol.Connection.Basic
import MailProtocol.Connection.Receive
import MailProtocol.Connection.Send
import MailProtocol.Digest.Md5
import MailProtocol.Error
import MailProtocol.Fragment
import MailProtocol.Grammar
import MailProtocol.Imap.Capability
import MailProtocol.Imap.Command
import MailProtocol.Imap.Endpoint
import MailProtocol.Imap.Item.Basic
import MailProtocol.Imap.Item.Parser
import MailProtocol.Imap.Item.Writer
import MailProtocol.Imap.LiteralMarker
import MailProtocol.Imap.Response.Basic
import MailProtocol.Imap.Response.Parser
import MailProtocol.Imap.Response.Writer
import MailProtocol.Imap.ResponseCode
import MailProtocol.Imap.Tag
import MailProtocol.Iterate
import MailProtocol.Line
import MailProtocol.LogLabel
import MailProtocol.Malformed
import MailProtocol.Pop3.Apop
import MailProtocol.Pop3.Body
import MailProtocol.Pop3.Capability
import MailProtocol.Pop3.Command
import MailProtocol.Pop3.Endpoint
import MailProtocol.Pop3.Listing
import MailProtocol.Pop3.Response
import MailProtocol.Pop3.ResponseCode
import MailProtocol.Receiver
import MailProtocol.Reception
import MailProtocol.Segments
import MailProtocol.Stream
import MailProtocol.Text.Case
import MailProtocol.Text.Escape
import MailProtocol.Text.Printable
import MailProtocol.Text.Quoted
import MailProtocol.Text.Utf8
import MailProtocol.Token.Basic
import MailProtocol.Token.Lookup
import MailProtocol.Token.Registry
import MailProtocol.Token.TokenSet
import MailProtocol.Toml.Document
import MailProtocol.Toml.Parser
import MailProtocol.Toml.Scalar
import MailProtocol.Toml.Token
import MailProtocol.Toml.Value
import MailProtocol.Transport
import MailProtocol.Proofs.Bytes.Lines
import MailProtocol.Proofs.Reception.Pump
import MailProtocol.Proofs.Reception.Cuts
import MailProtocol.Proofs.Bytes.Decimal
import MailProtocol.Proofs.Imap.Spelling
import MailProtocol.Proofs.Imap.Lexeme
import MailProtocol.Proofs.Bytes.Words
import MailProtocol.Proofs.Imap.Heading
import MailProtocol.Proofs.Imap.Incremental
import MailProtocol.Proofs.Imap.CommandRoundTrip
import MailProtocol.Proofs.Imap.LockStep
import MailProtocol.Proofs.Text.Utf8
import MailProtocol.Proofs.Imap.ResponseRoundTrip
import MailProtocol.Proofs.Imap.Announced
import MailProtocol.Proofs.Imap.Overlong
import MailProtocol.Proofs.Pop3.Framing
import MailProtocol.Proofs.Pop3.Dialogue
import MailProtocol.Proofs.Connection.Outgoing
import MailProtocol.Proofs.Places.Reception
import MailProtocol.Proofs.Imap.ItemGrammar
import MailProtocol.Proofs.Text.Lossy
import MailProtocol.Proofs.Imap.AcceptedResponse
import MailProtocol.Proofs.Pop3.Accepted
import MailProtocol.Proofs.Imap.StringArguments
import MailProtocol.Proofs.Imap.CommandSegments
import MailProtocol.Proofs.Pop3.BodyStuffing
import MailProtocol.Proofs.Pop3.Expectation
import MailProtocol.Proofs.Reception.Limits
import MailProtocol.Proofs.Pop3.FailedCommand
import MailProtocol.Proofs.Text.Case
import MailProtocol.Proofs.Token.Sets
import MailProtocol.Proofs.Token.Table
import MailProtocol.Proofs.Token.Negotiation
import MailProtocol.Proofs.Token.Registry
import MailProtocol.Proofs.Bytes.Fields
import MailProtocol.Proofs.Pop3.Capabilities
import MailProtocol.Proofs.Imap.Advertised
import MailProtocol.Proofs.Imap.Resumption
import MailProtocol.Proofs.Reception.Slots
import MailProtocol.Proofs.Reception.Pace
import MailProtocol.Proofs.Reception.Rounds
import MailProtocol.Proofs.Connection.Edits
import MailProtocol.Proofs.Connection.Draining
import MailProtocol.Proofs.Text.Plain
import MailProtocol.Proofs.Reception.Faults
import MailProtocol.Proofs.Connection.Log
import MailProtocol.Proofs.Imap.MarkerReaders
import MailProtocol.Proofs.Pop3.Listings
import MailProtocol.Proofs.Imap.Tags
import MailProtocol.Proofs.Connection.Orderly
