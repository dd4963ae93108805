import PubSub.Bus

/- The task of one connection. Between two points at which other tasks can interfere the
   task is at a program counter; a step goes from one to the next and is labelled by what
   it did. The tasks that own the other ends of the adapter's channels step as well. -/
namespace PubSub
open Channels

inductive Cause where
  | subscribe
  | created
  deriving DecidableEq

inductive HandlerPc (V B : Type) where
  | select (eventsEnabled : Bool)
  | handle (command : Command V)
  /-- Inside `list_topics`, which began when the map held `before`. -/
  | listing (before : Str → Bool)
  | visit (cause : Cause) (names : List Str)
  /-- Past `Bus::subscribe_to_topic`, with the stream not yet inserted. -/
  | joined (cause : Cause) (names : List Str) (name : Str) (receiver : Cursor)
      (lastMessage : Option B)
  | publishing (name : Str) (bytes : B) (pc : SendPc)
  | forward (name : Str) (number : Nat) (bytes : B)
  | stopped

inductive Act (V B : Type) where
  | connect
  | deliver (command : Command V)
  | hangUp
  | dequeue (bytes : B)
  | writerStopped
  | takeCommand (command : Command V)
  | disconnect
  | subscribe (pattern : Str)
  | unsubscribe (pattern : Str) (removed : Str → Bool)
  | panicked
  | listed (names : List Str)
  | skip (name : Str)
  | join (name : Str)
  | attach (name : Str)
  | retained (name : Str) (number : Nat) (bytes : B)
  | retainedLost (name : Str)
  | finish (cause : Cause)
  | startPublish (name : Str) (bytes : B)
  | publishFailed
  | sending (name : Str)
  | published
  | readEvent (name : Str)
  | eventsLagged (first next : Nat)
  | readItem (name : Str)
  | streamLagged (name : Str)
  | forward (name : Str) (number : Nat) (bytes : B)
  | forwardFailed

variable {ring : Ring} {V B : Type}

structure ConnectionHandler (V B : Type) where
  adapterSender : Mpsc channelBufferSize B
  adapterReceiver : Mpsc channelBufferSize (Command V)
  topicStreams : Str → Option Cursor
  topicEvents : Cursor
  subscriptions : GlobTree
  pc : HandlerPc V B

namespace ConnectionHandler

def new (bus : Bus ring B) : ConnectionHandler V B where
  adapterSender := Mpsc.new
  adapterReceiver := Mpsc.new
  topicStreams := fun _ => none
  topicEvents := bus.subscribeToTopicEvents
  subscriptions := GlobTree.new
  pc := .select true

def goto (h : ConnectionHandler V B) (pc : HandlerPc V B) : ConnectionHandler V B :=
  { h with pc := pc }

def stop (h : ConnectionHandler V B) : ConnectionHandler V B :=
  { h with
    adapterSender := { h.adapterSender with senderDropped := true }
    adapterReceiver := { h.adapterReceiver with receiverDropped := true }
    pc := .stopped }

def insertStream (h : ConnectionHandler V B) (name : Str) (receiver : Cursor) :
    ConnectionHandler V B :=
  { h with topicStreams := Function.update h.topicStreams name (some receiver) }

def enqueue (h : ConnectionHandler V B) (bytes : B) : ConnectionHandler V B :=
  { h with adapterSender := h.adapterSender.push bytes }

def unmatched (h : ConnectionHandler V B) (name : Str) : Bool :=
  (h.topicStreams name).isSome && !h.subscriptions.check name

def removeUnmatched (h : ConnectionHandler V B) : ConnectionHandler V B :=
  { h with topicStreams := fun name => if h.unmatched name then none else h.topicStreams name }

end ConnectionHandler

/-- Steps of the tasks at the other ends of the adapter's channels. They touch nothing
    but the channels. -/
inductive AdapterStep : ConnectionHandler V B → Act V B → ConnectionHandler V B → Prop where
  | deliver {h : ConnectionHandler V B} {command : Command V}
      (open_ : h.adapterReceiver.senderDropped = false) (room : h.adapterReceiver.HasRoom) :
      AdapterStep h (.deliver command)
        { h with adapterReceiver := h.adapterReceiver.push command }
  | hangUp {h : ConnectionHandler V B} :
      AdapterStep h .hangUp
        { h with adapterReceiver := { h.adapterReceiver with senderDropped := true } }
  | dequeue {h : ConnectionHandler V B} {bytes : B} {rest : List B}
      (open_ : h.adapterSender.receiverDropped = false)
      (queue : h.adapterSender.queue = bytes :: rest) :
      AdapterStep h (.dequeue bytes)
        { h with adapterSender := { h.adapterSender with queue := rest } }
  | writerStopped {h : ConnectionHandler V B} :
      AdapterStep h .writerStopped
        { h with adapterSender := { h.adapterSender with receiverDropped := true } }

/-- Steps of the handler itself, at the bus the other connections share. That `run` awaits the
    metrics between them is left out here. -/
inductive HandlerStep (encode : Message V → Option B) (bus : Bus ring B)
    (h : ConnectionHandler V B) :
    Act V B → Bus ring B → ConnectionHandler V B → Prop where
  | takeCommand {command : Command V} {rest : List (Command V)} {enabled : Bool}
      (at_ : h.pc = .select enabled) (queue : h.adapterReceiver.queue = command :: rest) :
      HandlerStep encode bus h (.takeCommand command) bus
        { h with
          adapterReceiver := { h.adapterReceiver with queue := rest }
          pc := .handle command }
  | disconnect {enabled : Bool} (at_ : h.pc = .select enabled)
      (queue : h.adapterReceiver.queue = []) (closed : h.adapterReceiver.senderDropped = true) :
      HandlerStep encode bus h .disconnect bus h.stop
  | subscribe {pattern : Str} (at_ : h.pc = .handle (.subscribe pattern)) :
      HandlerStep encode bus h (.subscribe pattern) bus
        { h with
          subscriptions := h.subscriptions.insert pattern
          pc := .listing bus.containsKey }
  | listed {before : Str → Bool} {names : List Str} (at_ : h.pc = .listing before)
      (lists : bus.Lists before names) :
      HandlerStep encode bus h (.listed names) bus (h.goto (.visit .subscribe names))
  | unsubscribe {pattern : Str} {result : Except String Unit} {tree : GlobTree}
      (at_ : h.pc = .handle (.unsubscribe pattern))
      (removed : h.subscriptions.remove pattern = .ok (result, tree)) :
      HandlerStep encode bus h
        (.unsubscribe pattern ({ h with subscriptions := tree }).unmatched) bus
        (({ h with subscriptions := tree }).removeUnmatched.goto (.select true))
  | panicked {pattern : Str} {panic : Panic} (at_ : h.pc = .handle (.unsubscribe pattern))
      (failed : h.subscriptions.remove pattern = .error panic) :
      HandlerStep encode bus h .panicked bus h.stop
  | skip {cause : Cause} {name : Str} {names : List Str} (at_ : h.pc = .visit cause (name :: names))
      (why : h.subscriptions.check name = false ∨ (h.topicStreams name).isSome ∨
        bus.subscribeToTopic name = none) :
      HandlerStep encode bus h (.skip name) bus (h.goto (.visit cause names))
  | join {cause : Cause} {name : Str} {names : List Str} {receiver : Cursor}
      {lastMessage : Option B} (at_ : h.pc = .visit cause (name :: names))
      (matched : h.subscriptions.check name = true) (unsubscribed : h.topicStreams name = none)
      (found : bus.subscribeToTopic name = some (receiver, lastMessage)) :
      HandlerStep encode bus h (.join name) bus
        (h.goto (.joined cause names name receiver lastMessage))
  | attach {cause : Cause} {name : Str} {names : List Str} {receiver : Cursor}
      (at_ : h.pc = .joined cause names name receiver none) :
      HandlerStep encode bus h (.attach name) bus
        ((h.insertStream name receiver).goto (.visit cause names))
  | retained {cause : Cause} {name : Str} {names : List Str} {receiver : Cursor} {bytes : B}
      (at_ : h.pc = .joined cause names name receiver (some bytes))
      (room : h.adapterSender.HasRoom) :
      HandlerStep encode bus h (.retained name receiver bytes) bus
        (((h.insertStream name receiver).enqueue bytes).goto (.visit cause names))
  /-- `try_send(msg).ok()` with the queue full or closed: the message is dropped. -/
  | retainedLost {cause : Cause} {name : Str} {names : List Str} {receiver : Cursor} {bytes : B}
      (at_ : h.pc = .joined cause names name receiver (some bytes))
      (full : ¬ h.adapterSender.HasRoom) :
      HandlerStep encode bus h (.retainedLost name) bus
        ((h.insertStream name receiver).goto (.visit cause names))
  | finish {cause : Cause} (at_ : h.pc = .visit cause []) :
      HandlerStep encode bus h (.finish cause) bus (h.goto (.select true))
  | startPublish {message : Message V} {bytes : B} (at_ : h.pc = .handle (.publish message))
      (encoded : encode message = some bytes) :
      HandlerStep encode bus h (.startPublish message.topic bytes) bus
        (h.goto (.publishing message.topic bytes .start))
  | publishFailed {message : Message V} (at_ : h.pc = .handle (.publish message))
      (failed : encode message = none) :
      HandlerStep encode bus h .publishFailed bus (h.goto (.select true))
  | sending {name : Str} {bytes : B} {pc : SendPc} (at_ : h.pc = .publishing name bytes pc)
      (running : ∀ result, pc ≠ .done result) :
      HandlerStep encode bus h (.sending name) (bus.sendStep name bytes pc).1
        (h.goto (.publishing name bytes (bus.sendStep name bytes pc).2))
  | published {name : Str} {bytes : B} {result : Except String Unit}
      (at_ : h.pc = .publishing name bytes (.done result)) :
      HandlerStep encode bus h .published bus (h.goto (.select true))
  | readEvent {name : Str} {next : Cursor} (at_ : h.pc = .select true)
      (received : bus.topicEventsTx.recv h.topicEvents = .item (.created name) next) :
      HandlerStep encode bus h (.readEvent name) bus
        { h with
          topicEvents := next
          pc := .visit .created [name] }
  /-- `Ok(event)` does not match: the branch is off until another one completes. -/
  | eventsLagged {next : Cursor} (at_ : h.pc = .select true)
      (received : bus.topicEventsTx.recv h.topicEvents = .lagged next) :
      HandlerStep encode bus h (.eventsLagged h.topicEvents next) bus
        { h with
          topicEvents := next
          pc := .select false }
  | readItem {name : Str} {cursor next : Cursor} {data : TopicData ring B} {bytes : B}
      {enabled : Bool} (at_ : h.pc = .select enabled)
      (stream : h.topicStreams name = some cursor) (topic : bus.topics name = some data)
      (received : data.sender.recv cursor = .item bytes next) :
      HandlerStep encode bus h (.readItem name) bus
        ((h.insertStream name next).goto (.forward name next bytes))
  | streamLagged {name : Str} {cursor next : Cursor} {data : TopicData ring B} {enabled : Bool}
      (at_ : h.pc = .select enabled)
      (stream : h.topicStreams name = some cursor) (topic : bus.topics name = some data)
      (received : data.sender.recv cursor = .lagged next) :
      HandlerStep encode bus h (.streamLagged name) bus
        ((h.insertStream name next).goto (.select true))
  | forward {name : Str} {number : Nat} {bytes : B} (at_ : h.pc = .forward name number bytes)
      (room : h.adapterSender.HasRoom) :
      HandlerStep encode bus h (.forward name number bytes) bus
        ((h.enqueue bytes).goto (.select true))
  | forwardFailed {name : Str} {number : Nat} {bytes : B}
      (at_ : h.pc = .forward name number bytes)
      (closed : h.adapterSender.receiverDropped = true) :
      HandlerStep encode bus h .forwardFailed bus h.stop

def Act.enqueued (topic : Str) : Act V B → Option (Nat × B)
  | .retained name number bytes => if name = topic then some (number, bytes) else none
  | .forward name number bytes => if name = topic then some (number, bytes) else none
  | _ => none

def Act.Removes (topic : Str) : Act V B → Prop
  | .unsubscribe _ removed => removed topic = true
  | _ => False

end PubSub
