import PubSub.Interface
import PubSub.Channels
import PubSub.LabelledRun

/- A metric is a value owned by a task of its own. Everybody else has a mutator, which
   reports over a channel; the task listens to the channel until a timer drops the future
   that listens, logs the value, and listens again. Arithmetic panics where the language
   checks it. -/
namespace PubSub.Metrics
open Channels LabelledRun
variable {M V : Type}

inductive MetricPanic where
  | noneUnwrapped
  | addOverflow
  | subtractOverflow
  | multiplyOverflow
  deriving DecidableEq

/-- What the implementations of the trait differ in: the value of a new metric, the body of
    the loop of `listen`, and what logging leaves of the value. -/
structure Metric (M V : Type) where
  new : V
  listen : V → M → Except MetricPanic V
  logMetric : V → V

inductive Task (V : Type) where
  | listening (value : V)
  | logging (value : V)
  | panicked (why : MetricPanic)

def Task.value : Task V → Option V
  | .listening value => some value
  | .logging value => some value
  | .panicked _ => none

inductive TaskAct (M V : Type) where
  | received (message : M)
  | closed
  | tick
  | logged (value : V)

/-- The receiving end is dropped with the metric when the task panics. -/
inductive TaskStep (metric : Metric M V) (channel : Mpsc channelBufferSize M) :
    Task V → TaskAct M V → Mpsc channelBufferSize M → Task V → Prop where
  | received {value after : V} {message : M} {rest : List M}
      (queue : channel.queue = message :: rest)
      (updated : metric.listen value message = .ok after) :
      TaskStep metric channel (.listening value) (.received message)
        { channel with queue := rest } (.listening after)
  | panicked {value : V} {message : M} {rest : List M} {why : MetricPanic}
      (queue : channel.queue = message :: rest)
      (failed : metric.listen value message = .error why) :
      TaskStep metric channel (.listening value) (.received message)
        { channel with queue := rest, receiverDropped := true } (.panicked why)
  | closed {value : V} (queue : channel.queue = []) (gone : channel.senderDropped = true) :
      TaskStep metric channel (.listening value) .closed
        { channel with receiverDropped := true } (.panicked .noneUnwrapped)
  /-- The future of `listen` is dropped where it awaits the next message. -/
  | tick {value : V} :
      TaskStep metric channel (.listening value) .tick channel (.logging value)
  | logged {value : V} :
      TaskStep metric channel (.logging value) (.logged value) channel
        (.listening (metric.logMetric value))

/-! The count of connections. -/

def negated (n : Int64) : Except MetricPanic Int64 :=
  if n = Int64.minValue then .error .multiplyOverflow else .ok (n * -1)

namespace CountMutator

def add (n : Int64) : Except MetricPanic Int64 := .ok n

def subtract (n : Int64) : Except MetricPanic Int64 := negated n

end CountMutator

namespace Count

def add (value n : UInt64) : Except MetricPanic UInt64 :=
  if value.toNat + n.toNat < 2 ^ 64 then .ok (value + n) else .error .addOverflow

def subtract (value n : UInt64) : Except MetricPanic UInt64 :=
  if n ≤ value then .ok (value - n) else .error .subtractOverflow

def listen (value : UInt64) (i : Int64) : Except MetricPanic UInt64 :=
  if 0 ≤ i then add value i.toUInt64
  else do subtract value (← negated i).toUInt64

def metric : Metric Int64 UInt64 where
  new := 0
  listen := listen
  logMetric := id

end Count

inductive RunPc where
  | starting
  | looping
  | ending
  | ended
  | panicked (added : Bool)
  deriving DecidableEq

def RunPc.counted : RunPc → Bool
  | .looping => true
  | .ending => true
  | .panicked added => added
  | _ => false

inductive RunAct where
  | sent (message : Int64)
  | leave
  | panicked

/-- What a connection does to the count. Its loop runs for as long as it likes, and no pass
    of it reports here; it may panic when another metric's task is gone. -/
inductive RunStep (channel : Mpsc channelBufferSize Int64) :
    RunPc → RunAct → Mpsc channelBufferSize Int64 → RunPc → Prop where
  | add {message : Int64} (reported : CountMutator.add 1 = .ok message)
      (room : channel.HasRoom) :
      RunStep channel .starting (.sent message) (channel.push message) .looping
  | addFailed (closed : channel.receiverDropped = true) :
      RunStep channel .starting .panicked channel (.panicked false)
  | leave : RunStep channel .looping .leave channel .ending
  | loopPanicked : RunStep channel .looping .panicked channel (.panicked true)
  | subtract {message : Int64} (reported : CountMutator.subtract 1 = .ok message)
      (room : channel.HasRoom) :
      RunStep channel .ending (.sent message) (channel.push message) .ended
  | subtractFailed (closed : channel.receiverDropped = true) :
      RunStep channel .ending .panicked channel (.panicked true)

structure State where
  channel : Mpsc channelBufferSize Int64
  task : Task UInt64
  connections : List RunPc

def State.start : State := ⟨Mpsc.new, .listening Count.metric.new, []⟩

inductive Label where
  | spawn
  | connection (c : Nat) (act : RunAct)
  | task (act : TaskAct Int64 UInt64)

inductive Step (s : State) : Label → State → Prop where
  | spawn : Step s .spawn { s with connections := s.connections ++ [.starting] }
  | connection {c : Nat} {pc after : RunPc} {act : RunAct} {channel : Mpsc channelBufferSize Int64}
      (found : s.connections[c]? = some pc) (step : RunStep s.channel pc act channel after) :
      Step s (.connection c act)
        { s with channel := channel, connections := s.connections.set c after }
  | task {act : TaskAct Int64 UInt64} {channel : Mpsc channelBufferSize Int64}
      {after : Task UInt64} (step : TaskStep Count.metric s.channel s.task act channel after) :
      Step s (.task act) { s with channel := channel, task := after }

abbrev CountRun (ls : List Label) (s : State) : Prop := Run Step State.start ls s

def Label.sent : Label → Option Int64
  | .connection _ (.sent message) => some message
  | _ => none

def Label.received : Label → Option Int64
  | .task (.received message) => some message
  | _ => none

def sent (ls : List Label) : List Int64 := ls.filterMap Label.sent

def received (ls : List Label) : List Int64 := ls.filterMap Label.received

end PubSub.Metrics
