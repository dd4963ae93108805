import PubSub.GlobTree

/- What a client and the broker exchange, and the size of every channel between them.
   A value is left abstract; only its bytes ever matter to the broker. -/
namespace PubSub

def channelBufferSize : Nat := 100000

structure Message (V : Type) where
  topic : Str
  value : V
  deriving DecidableEq

inductive Command (V : Type) where
  | publish (message : Message V)
  | subscribe (pattern : Str)
  | unsubscribe (pattern : Str)
  deriving DecidableEq

end PubSub
