import PubSub.Client
import PubSub.Interference
import PubSub.WriteLoop

/- A client and its connection as one system: the client's two tasks, the bytes under way in
   both directions, the task that reads them at the server, the handler, and the task that
   writes. The socket may deliver any part of what it was handed, and may break. -/
namespace PubSub
open Channels LabelledRun StreamParsing MsgPackCodec
variable {ring : Ring} {T V : Type}

/-! One direction of a stream. -/

/-- What the socket allows that was handed some bytes, of which a part has arrived: some more of
    them, and the end of the stream after the last when the other side has shut it. -/
def FramedEvent.Possible (handed arrived : Bytes) (shut : Prop) : FramedEvent T → Prop
  | .read (.chunk bytes) => bytes ≠ [] ∧ arrived ++ bytes <+: handed
  | .endOfFile => arrived = handed ∧ shut
  | _ => True

theorem arrivedIn_append (es more : List (FramedEvent T)) :
    arrivedIn (es ++ more) = arrivedIn es ++ arrivedIn more := by
  unfold arrivedIn fed
  rw [List.filterMap_append, List.filterMap_append, List.flatten_append]

theorem possible_within {handed later arrived : Bytes} {shut : Prop} {e : Option (FramedEvent T)}
    (possible : ∀ f ∈ e, f.Possible handed arrived shut) (within : arrived <+: handed)
    (more : handed <+: later) : arrived ++ arrivedIn e.toList <+: later := by
  have quiet : arrivedIn e.toList = [] → arrived ++ arrivedIn e.toList <+: later := by
    intro nothing
    rw [nothing, List.append_nil]
    exact within.trans more
  cases e with
  | none => exact quiet rfl
  | some f =>
    cases f with
    | read e =>
      cases e with
      | chunk bytes =>
        have here : arrived ++ bytes <+: handed := (possible (.read (.chunk bytes)) rfl).2
        simpa [arrivedIn, fed, FramedEvent.reading, ReadEvent.fed] using here.trans more
      | _ => exact quiet rfl
    | _ => exact quiet rfl

structure Session (V : Type) where
  client : Client V
  atServer : Bytes
  readTask : ReadTask (Command V)
  handler : ConnectionHandler V Bytes
  bufWriter : BufWriter
  flushInterval : Option Nat
  loopPc : LoopPc
  atClient : Bytes

namespace Session

def serverInbox (k : Session V) : Inbox (Command V) := ⟨k.readTask, k.handler.adapterReceiver⟩

def writeLoop (k : Session V) : WriteLoop :=
  ⟨k.handler.adapterSender, k.bufWriter, k.flushInterval, k.loopPc⟩

def withWriteLoop (k : Session V) (s : WriteLoop) : Session V :=
  { k with
    handler := { k.handler with adapterSender := s.outRx }
    bufWriter := s.bufWriter
    flushInterval := s.flushInterval
    loopPc := s.pc }

def new (config : BufferConfig) (bus : Bus ring Bytes) : Session V where
  client := .new
  atServer := []
  readTask := .start
  handler := { ConnectionHandler.new bus with adapterSender := (WriteLoop.start config).outRx }
  bufWriter := (WriteLoop.start config).bufWriter
  flushInterval := (WriteLoop.start config).flushInterval
  loopPc := (WriteLoop.start config).pc
  atClient := []

end Session

inductive SessionEvent (V : Type) where
  | client (e : ClientEvent V)
  | readTask (e : ReadTaskEvent (Command V))
  | writeLoop (e : LoopEvent)
  | handler (a : Act V Bytes)

def ClientEvent.framing (e : ClientEvent V) : Option (FramedEvent (Message V)) :=
  e.inboxed.bind InboxEvent.framing

inductive SessionStep (format : Format V) (config : BufferConfig) (bus : Bus ring Bytes)
    (k : Session V) : SessionEvent V → Bus ring Bytes → Session V → Prop where
  | client {e : ClientEvent V} {client : Client V} (step : ClientStep format k.client e client)
      (possible : ∀ f ∈ e.framing,
        f.Possible k.bufWriter.socket k.atClient (∃ how, k.loopPc = .ended how)) :
      SessionStep format config bus k (.client e) bus
        { k with client := client, atClient := k.atClient ++ arrivedIn e.framing.toList }
  | readTask {e : ReadTaskEvent (Command V)} {r : ReadTask (Command V)}
      {channel : Mpsc channelBufferSize (Command V)}
      (step : ReadTaskStep format.readCommand k.readTask k.handler.adapterReceiver e r channel)
      (possible : ∀ f ∈ e.framing,
        f.Possible k.client.handed k.atServer (k.client.writer = .ended)) :
      SessionStep format config bus k (.readTask e) bus
        { k with
          readTask := r
          handler := { k.handler with adapterReceiver := channel }
          atServer := k.atServer ++ arrivedIn e.framing.toList }
  | writeLoop {e : LoopEvent} {s : WriteLoop} (step : WriteStep config k.writeLoop e s)
      (own : e.enqueued = none ∧ e ≠ .dropSenders) :
      SessionStep format config bus k (.writeLoop e) bus (k.withWriteLoop s)
  | handler {a : Act V Bytes} {after : Bus ring Bytes} {h : ConnectionHandler V Bytes}
      (step : HandlerStep format.encode bus k.handler a after h) :
      SessionStep format config bus k (.handler a) after { k with handler := h }

/-! The tasks of a connection, each by what the connection did to it. -/

namespace Act

def inboxed : Act V Bytes → Option (InboxEvent (Command V))
  | .takeCommand command => some (.taken command)
  | .disconnect | .panicked | .forwardFailed => some .closed
  | _ => none

def looped : Act V Bytes → Option LoopEvent
  | .retained _ _ bytes => some (.enqueue bytes)
  | .forward _ _ bytes => some (.enqueue bytes)
  | .disconnect | .panicked | .forwardFailed => some .dropSenders
  | _ => none

end Act

namespace SessionEvent

def ofClient : SessionEvent V → Option (ClientEvent V)
  | .client e => some e
  | _ => none

def inboxed : SessionEvent V → Option (InboxEvent (Command V))
  | .readTask e => some (.task e)
  | .handler a => a.inboxed
  | _ => none

def looped : SessionEvent V → Option LoopEvent
  | .writeLoop e => some e
  | .handler a => a.looped
  | _ => none

def outgoing : SessionEvent V → Option Bytes
  | .handler a => a.enqueues.map Prod.snd
  | _ => none

end SessionEvent

def ConnectionHandler.Sending (h : ConnectionHandler V Bytes) : Prop :=
  h.adapterSender.senderDropped = true → h.pc = .stopped

section Handler
variable {encode : Message V → Option Bytes} {bus after : Bus ring Bytes}
  {h h' : ConnectionHandler V Bytes} {a : Act V Bytes}

theorem handlerStep_inboxed {fromRead : Parser UInt8 DecodeError (Command V)}
    (task : ReadTask (Command V)) (step : HandlerStep encode bus h a after h') :
    Follows (InboxStep fromRead) ⟨task, h.adapterReceiver⟩ a.inboxed ⟨task, h'.adapterReceiver⟩ := by
  cases step with
  | takeCommand at_ queue => exact .taken queue
  | disconnect => exact .closed
  | panicked => exact .closed
  | forwardFailed => exact .closed
  | _ => rfl

theorem handlerStep_looped {config : BufferConfig} (writer : BufWriter) (interval : Option Nat)
    (pc : LoopPc) (sending : h.Sending) (step : HandlerStep encode bus h a after h') :
    Follows (WriteStep config) ⟨h.adapterSender, writer, interval, pc⟩ a.looped
      ⟨h'.adapterSender, writer, interval, pc⟩ := by
  have open_ : ∀ at_, h.pc = at_ → at_ ≠ .stopped → h.adapterSender.senderDropped = false := by
    rintro at_ rfl running
    exact Bool.eq_false_iff.mpr fun dropped => running (sending dropped)
  cases step with
  | retained at_ room => exact .enqueue (open_ _ at_ (by simp)) room
  | forward at_ room => exact .enqueue (open_ _ at_ (by simp)) room
  | disconnect => exact .dropSenders
  | panicked => exact .dropSenders
  | forwardFailed => exact .dropSenders
  | _ => rfl

theorem handlerStep_keepsSending (sending : h.Sending) (step : HandlerStep encode bus h a after h') :
    h'.Sending := by
  have running : ∀ at_, h.pc = at_ → at_ ≠ .stopped → h.adapterSender.senderDropped ≠ true := by
    rintro at_ rfl running dropped
    exact running (sending dropped)
  cases step with
  | disconnect => exact fun _ => rfl
  | panicked => exact fun _ => rfl
  | forwardFailed => exact fun _ => rfl
  | _ at_ => exact fun dropped => absurd dropped (running _ at_ (by simp))

end Handler

/-- The steps of a session, at a bus that others change as they like. -/
def SessionMove (ring : Ring) (format : Format V) (config : BufferConfig) (k : Session V)
    (e : SessionEvent V) (k' : Session V) : Prop :=
  ∃ bus after : Bus ring Bytes, SessionStep format config bus k e after k'

/-- Each task of a session has run as it does by itself, on the events of the session that
    concern it, and no more has come out of a socket than was handed to it. -/
structure Session.Kept (format : Format V) (config : BufferConfig) (es : List (SessionEvent V))
    (k : Session V) : Prop where
  client : ClientRun format (es.filterMap SessionEvent.ofClient) k.client
  server : InboxRun format.readCommand (es.filterMap SessionEvent.inboxed) k.serverInbox
  loop : WriteRun config (es.filterMap SessionEvent.looped) k.writeLoop
  outgoing : (es.filterMap SessionEvent.looped).filterMap LoopEvent.enqueued =
    es.filterMap SessionEvent.outgoing
  sending : k.handler.Sending
  commands : k.atServer = arrivedIn (framings (es.filterMap SessionEvent.inboxed))
  messages : k.atClient =
    arrivedIn ((es.filterMap SessionEvent.ofClient).filterMap ClientEvent.framing)
  upstream : k.atServer <+: k.client.handed
  downstream : k.atClient <+: k.bufWriter.socket

section Steps
variable {format : Format V} {config : BufferConfig}

theorem clientStep_handed {k k' : Client V} {e : ClientEvent V} (step : ClientStep format k e k') :
    k.handed <+: k'.handed := by
  cases step with
  | hand at_ => exact List.prefix_append _ _
  | _ => exact List.prefix_refl _

theorem writeStep_socket {s t : WriteLoop} {e : LoopEvent} (step : WriteStep config s e t) :
    s.bufWriter.socket <+: t.bufWriter.socket := by
  have wrote : ∀ {w after : BufWriter} {bytes : Bytes}, w.WriteAll bytes after →
      w.socket <+: after.socket := by
    rintro w after bytes ⟨handed, kept, -, rfl⟩
    exact List.prefix_append _ _
  cases step with
  | loop step =>
    cases step with
    | receive at_ queue written => exact wrote written
    | flush at_ => exact List.prefix_append _ _
    | _ => exact List.prefix_refl _
  | writeFailed at_ queue written => exact wrote written
  | flushFailed at_ written => exact wrote written
  | _ => exact List.prefix_refl _

theorem writeStep_sender {s t : WriteLoop} {e : LoopEvent} (step : WriteStep config s e t)
    (own : e ≠ .dropSenders) : t.outRx.senderDropped = s.outRx.senderDropped := by
  cases step with
  | loop step => cases step <;> rfl
  | dropSenders => exact absurd rfl own
  | _ => rfl

theorem framing_arrivals (es : List (ClientEvent V)) (e : ClientEvent V) :
    arrivedIn ((es ++ [e]).filterMap ClientEvent.framing) =
      arrivedIn (es.filterMap ClientEvent.framing) ++ arrivedIn e.framing.toList := by
  rw [filterMap_snoc, arrivedIn_append]

theorem sessionStep_kept {bus after : Bus ring Bytes} {es : List (SessionEvent V)}
    {k k' : Session V} {e : SessionEvent V} (kept : k.Kept format config es)
    (step : SessionStep format config bus k e after k') : k'.Kept format config (es ++ [e]) := by
  obtain ⟨client, server, loop, outgoing, sending, commands, messages, upstream, downstream⟩ := kept
  cases step with
  | @client e client' step possible =>
    have moved := filterMap_snoc_some (f := SessionEvent.ofClient) (l := .client e) rfl es
    have inboxed := filterMap_snoc_none (f := SessionEvent.inboxed) (l := .client e) rfl es
    have looped := filterMap_snoc_none (f := SessionEvent.looped) (l := .client e) rfl es
    constructor
    · rw [moved]
      exact Run.snoc client step
    · rw [inboxed]
      exact server
    · rw [looped]
      exact loop
    · rw [looped, filterMap_snoc_none rfl]
      exact outgoing
    · exact sending
    · rw [inboxed]
      exact commands
    · rw [moved, framing_arrivals, ← messages]
    · exact upstream.trans (clientStep_handed step)
    · exact possible_within possible downstream (List.prefix_refl _)
  | @readTask e r channel step possible =>
    have moved := filterMap_snoc_none (f := SessionEvent.ofClient) (l := .readTask e) rfl es
    have inboxed := filterMap_snoc_some (f := SessionEvent.inboxed) (l := .readTask e) rfl es
    have looped := filterMap_snoc_none (f := SessionEvent.looped) (l := .readTask e) rfl es
    constructor
    · rw [moved]
      exact client
    · rw [inboxed]
      exact Run.snoc server (.task step)
    · rw [looped]
      exact loop
    · rw [looped, filterMap_snoc_none rfl]
      exact outgoing
    · exact sending
    · rw [inboxed, framings, filterMap_snoc, arrivedIn_append, commands]
      rfl
    · rw [moved]
      exact messages
    · exact possible_within possible upstream (List.prefix_refl _)
    · exact downstream
  | @writeLoop e s step own =>
    have moved := filterMap_snoc_none (f := SessionEvent.ofClient) (l := .writeLoop e) rfl es
    have inboxed := filterMap_snoc_none (f := SessionEvent.inboxed) (l := .writeLoop e) rfl es
    have looped := filterMap_snoc_some (f := SessionEvent.looped) (l := .writeLoop e) rfl es
    constructor
    · rw [moved]
      exact client
    · rw [inboxed]
      exact server
    · rw [looped]
      exact Run.snoc loop step
    · rw [looped, filterMap_snoc_none own.1, filterMap_snoc_none rfl]
      exact outgoing
    · intro dropped
      exact sending ((writeStep_sender step own.2).symm.trans dropped)
    · rw [inboxed]
      exact commands
    · rw [moved]
      exact messages
    · exact upstream
    · exact downstream.trans (writeStep_socket step)
  | @handler a after h step =>
    have moved := filterMap_snoc_none (f := SessionEvent.ofClient) (l := .handler a) rfl es
    have inboxed := filterMap_snoc SessionEvent.inboxed es (.handler a)
    have looped := filterMap_snoc SessionEvent.looped es (.handler a)
    have quiet : ∀ e ∈ a.inboxed, e.framing = none := by
      cases a <;> simp [Act.inboxed, InboxEvent.framing]
    constructor
    · rw [moved]
      exact client
    · rw [inboxed]
      exact run_follows server (handlerStep_inboxed k.readTask step)
    · rw [looped]
      exact run_follows loop (handlerStep_looped _ _ _ sending step)
    · rw [looped, List.filterMap_append, outgoing, filterMap_snoc]
      cases a <;> rfl
    · exact handlerStep_keepsSending sending step
    · rw [inboxed, framings, List.filterMap_append, arrivedIn_append, commands]
      have none : (SessionEvent.inboxed (.handler a)).toList.filterMap InboxEvent.framing = [] := by
        apply List.filterMap_eq_nil_iff.mpr
        exact fun e member => quiet e (Option.mem_toList.mp member)
      rw [none]
      exact (List.append_nil _).symm
    · rw [moved]
      exact messages
    · exact upstream
    · exact downstream

theorem session_kept {bus : Bus ring Bytes} {es : List (SessionEvent V)} {k : Session V}
    (run : Run (SessionMove ring format config) (Session.new config bus) es k) :
    k.Kept format config es := by
  refine run_history (fun es k => k.Kept format config es) ?_ ?_ run
  · refine ⟨Run.nil _, Run.nil _, Run.nil _, rfl, ?_, rfl, rfl, List.prefix_refl _, List.nil_prefix⟩
    intro dropped
    unfold Session.new WriteLoop.start at dropped
    split_ifs at dropped <;> cases dropped
  · rintro es k e k' - kept ⟨bus, after, step⟩
    exact sessionStep_kept kept step

end Steps
end PubSub
