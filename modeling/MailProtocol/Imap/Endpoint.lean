import MailProtocol.Connection.Receive
import MailProtocol.Connection.Send
import MailProtocol.Imap.Command
import MailProtocol.Imap.Response.Parser
import MailProtocol.Imap.Response.Writer

/-!
# The two sides of IMAP

A server reads commands and writes responses, a client the other way round. A client may be told
between two commands whether to wait before it sends literals.
-/

namespace MailProtocol.Imap

/-- The name of the protocol in the log. -/
def protocolName : String := "imap"

/-- What a server speaks. -/
def serverEndpoint (config : Config) : Endpoint Unit Command Unit Response where
  grammar := Command.grammar config
  lawful := Command.lawful_grammar config
  write _ := Response.write

/-- What a client speaks. -/
def clientEndpoint (config : Config) : Endpoint Bool Response Command.Writer Command where
  grammar := Response.grammar config
  lawful := Response.lawful_grammar config
  write := Command.write

/-- A server's connection, which the log calls `id`, before it has a stream. -/
def serverConnection (config : Config) (id : String) : Connection Unit Command Unit where
  label := { protocol := protocolName, connection := id }
  chunkSize := config.limits.readChunkSize
  receiver := ⟨(), .empty⟩
  writer := ()

/-- A client's connection, which the log calls `id`, before it has a stream. -/
def clientConnection (config : Config) (id : String) : Connection Bool Response Command.Writer where
  label := { protocol := protocolName, connection := id }
  chunkSize := config.limits.readChunkSize
  receiver := ⟨false, .empty⟩
  writer := { literalPlus := config.imap.literalPlus }

end MailProtocol.Imap
