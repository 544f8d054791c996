import VerifiableExchange.Operator

/-!
# Wire — one message of a page

The bytes the sequencer served, and what this build makes of them. A message it cannot interpret
still says its id and its kind.
-/

namespace VerifiableExchange

/-- A message this build cannot interpret. -/
structure TooOld where
  id : OrderId
  kind : String
  reason : String
  deriving DecidableEq

/-- One message of a page: its bytes as they arrived, and what this build made of them. -/
structure ReadMessage where
  bytes : Bytes
  parsed : Except TooOld OrderMessage
  deriving DecidableEq

/-- The message's position in the log, read out of the bytes either way. -/
def ReadMessage.id (m : ReadMessage) : OrderId :=
  match m.parsed with
  | .ok message => message.id
  | .error tooOld => tooOld.id

end VerifiableExchange
