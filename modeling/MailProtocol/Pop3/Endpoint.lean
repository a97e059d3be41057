import MailProtocol.Connection.Receive
import MailProtocol.Connection.Send
import MailProtocol.Pop3.Command
import MailProtocol.Pop3.Response

/-!
# The two sides of POP3

A server reads commands and writes responses, a client the other way round. A client must expect a
body after some commands, and sends them with `sendCommand`. It keeps one expectation, so the answer
to a command has to be read before the next command is sent.
-/

namespace MailProtocol.Pop3

/-- The name of the protocol in the log. -/
def protocolName : String := "pop3"

/-- What a server speaks. -/
def serverEndpoint (config : Config) : Endpoint Unit Command Unit Response where
  grammar := Command.grammar config
  lawful := Command.lawful_grammar config
  write _ := Response.write

/-- What a client speaks. -/
def clientEndpoint (config : Config) : Endpoint Response.Reading Response Unit Command where
  grammar := Response.grammar config
  lawful := Response.lawful_grammar config
  write _ := Command.write

/-- A server's connection, which the log calls `id`, before it has a stream. -/
def serverConnection (config : Config) (id : String) : Connection Unit Command Unit where
  label := { protocol := protocolName, connection := id }
  chunkSize := config.limits.readChunkSize
  receiver := ⟨(), .empty⟩
  writer := ()

/-- A client's connection, which the log calls `id`, before it has a stream. -/
def clientConnection (config : Config) (id : String) :
    Connection Response.Reading Response Unit where
  label := { protocol := protocolName, connection := id }
  chunkSize := config.limits.readChunkSize
  receiver := ⟨{}, .empty⟩
  writer := ()

/-- Send a command, and expect a body if a positive answer to it brings one. The expectation is
there before the command is sent, and stays if there is no stream to send it on. -/
def sendCommand (config : Config) (c : Connection Response.Reading Response Unit)
    (command : Command) :
    Except Error SendOutcome × Connection Response.Reading Response Unit :=
  (c.mapState ({ · with expectsBody := command.expectsMultiline })).send (clientEndpoint config)
    command

end MailProtocol.Pop3
