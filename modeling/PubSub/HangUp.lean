import PubSub.Quiescence

/- What is left of a client that has gone. If it went in order, with its last command written
   and its stream read to the end, the handler leaves only when it has done everything the
   client called for. If the stream broke, it has done what arrived whole. -/
namespace PubSub
open Channels LabelledRun StreamParsing MsgPackCodec
variable {ring : Ring} {V : Type} {format : Format V} {config : BufferConfig}

theorem ReadSoFar.complete {T : Type} {serialize : T → Except String Bytes} {xs out : List T}
    {stream tail : Bytes} (sent : encodeAll serialize xs [] = (.ok (), stream))
    (read : ReadSoFar serialize xs stream out tail) : out = xs := by
  obtain ⟨rest, done, later, rfl, before, after, place, -, unread⟩ := read
  have same : encodeAll serialize (out ++ rest) [] = (.ok (), (done ++ later).flatten) :=
    (encodeAll_iff _ _ _ _).mpr ⟨_, List.rel_append before after, rfl⟩
  have whole : stream = (done ++ later).flatten := (Prod.mk.inj (sent.symm.trans same)).2
  rw [whole, List.flatten_append] at place
  have exact_ := List.append_cancel_left place
  cases after with
  | nil => exact (List.append_nil _).symm
  | @cons x frame rest later here others =>
    refine absurd ?_ (unread frame rfl)
    rw [← exact_, List.flatten_cons]
    exact List.prefix_append _ _

/-- The writer came to its end behind the last command, with all of them handed over. -/
structure Client.Complete (format : Format V) (es : List (ClientEvent V)) (k : Client V) : Prop where
  ended : k.writer = .ended
  closed : k.commands.receiverDropped = true
  all : es.filterMap ClientEvent.written = es.filterMap ClientEvent.called
  stream : ∃ frames, SentAs format.packCommand (es.filterMap ClientEvent.written) frames ∧
    k.handed = frames.flatten

theorem Client.Complete.still {es : List (ClientEvent V)} {k k' : Client V} {e : ClientEvent V}
    (complete : k.Complete format es) (silent : e.called = none ∧ e.written = none)
    (same : k'.handed = k.handed) (ended : k'.writer = .ended)
    (closed : k'.commands.receiverDropped = true) : k'.Complete format (es ++ [e]) := by
  obtain ⟨frames, sent, handed⟩ := complete.stream
  refine ⟨ended, closed, ?_, frames, ?_, same.trans handed⟩
  · rw [filterMap_snoc_none silent.1, filterMap_snoc_none silent.2]
    exact complete.all
  · rw [filterMap_snoc_none silent.2]
    exact sent

theorem complete_step {es : List (ClientEvent V)} {k k' : Client V} {e : ClientEvent V}
    (complete : k.Complete format es) (step : ClientStep format k e k') :
    k'.Complete format (es ++ [e]) := by
  have ended := complete.ended
  cases step with
  | call open_ room => exact absurd (room.1.symm.trans complete.closed) (by simp)
  | callPanicked => exact complete.still ⟨rfl, rfl⟩ rfl ended complete.closed
  | dropSenders => exact complete.still ⟨rfl, rfl⟩ rfl ended complete.closed
  | broken running => exact absurd ended running
  | inbox step => exact complete.still ⟨rfl, rfl⟩ rfl ended complete.closed
  | closed => exact complete.still ⟨rfl, rfl⟩ rfl ended complete.closed
  | _ at_ => exact absurd (ended.symm.trans at_) (by simp)

theorem finished_complete {es : List (ClientEvent V)} {k : Client V}
    (run : ClientRun format es k) (finished : .finished ∈ es) : k.Complete format es := by
  refine run_history (fun es k => .finished ∈ es → k.Complete format es) ?_ ?_ run finished
  · exact fun member => absurd member List.not_mem_nil
  · intro es k e k' before ih step member
    by_cases old : .finished ∈ es
    · exact complete_step (ih old) step
    · obtain rfl : .finished = e := by simpa [old] using member
      cases step with
      | finished at_ queue gone =>
        have kept := client_kept before
        have running : k.writer ≠ .ended := by rw [at_]; simp
        obtain ⟨frames, sent, -, exact_⟩ := kept.stream
        have handed := exact_ running
        rw [at_, ClientWriter.left, List.append_nil] at handed
        refine ⟨rfl, rfl, ?_, frames, ?_, handed⟩
        · rw [filterMap_snoc_none rfl, filterMap_snoc_none rfl, kept.running running, kept.order,
            queue, List.append_nil]
        · rw [filterMap_snoc_none rfl]
          exact sent

theorem ended_handed {k k' : Client V} {e : ClientEvent V} (ended : k.writer = .ended)
    (step : ClientStep format k e k') : k'.writer = .ended ∧ k'.handed = k.handed := by
  cases step with
  | broken running => exact absurd ended running
  | write at_ => exact absurd (ended.symm.trans at_) (by simp)
  | unencodable at_ => exact absurd (ended.symm.trans at_) (by simp)
  | hand at_ => exact absurd (ended.symm.trans at_) (by simp)
  | flushed at_ => exact absurd (ended.symm.trans at_) (by simp)
  | finished at_ => exact absurd (ended.symm.trans at_) (by simp)
  | _ => exact ⟨ended, rfl⟩

theorem over_silent {T : Type} {fromRead : Parser UInt8 DecodeError T} {r r' : ReadTask T}
    {channel after : Mpsc channelBufferSize T} {e : ReadTaskEvent T}
    (past : ∀ loop, r.framed ≠ .streaming loop) (step : ReadTaskStep fromRead r channel e r' after) :
    arrivedIn e.framing.toList = [] ∧ ∀ loop, r'.framed ≠ .streaming loop := by
  cases step with
  | framed idle step =>
    generalize at_ : r.framed = framed at step
    cases step with
    | last => exact ⟨rfl, by simp⟩
    | finished => exact ⟨rfl, by simp⟩
    | leftover => exact ⟨rfl, by simp⟩
    | undecodable => exact ⟨rfl, by simp⟩
    | _ => exact absurd at_ (past _)
  | _ => exact ⟨rfl, past⟩

structure Session.Shut (k : Session V) : Prop where
  ended : k.client.writer = .ended
  arrived : k.atServer = k.client.handed
  past : ∀ loop, k.readTask.framed ≠ .streaming loop

theorem shut_step {bus after : Bus ring Bytes} {k k' : Session V} {e : SessionEvent V}
    (shut : k.Shut) (step : SessionStep format config bus k e after k') : k'.Shut := by
  obtain ⟨ended, arrived, past⟩ := shut
  cases step with
  | client step possible =>
    obtain ⟨still, same⟩ := ended_handed ended step
    exact ⟨still, arrived.trans same.symm, past⟩
  | readTask step possible =>
    obtain ⟨silent, still⟩ := over_silent past step
    refine ⟨ended, ?_, still⟩
    show k.atServer ++ _ = _
    rw [silent, List.append_nil, arrived]
  | writeLoop step own => exact ⟨ended, arrived, past⟩
  | handler step => exact ⟨ended, arrived, past⟩

theorem eof_shut {bus : Bus ring Bytes} {es : List (SessionEvent V)} {k : Session V}
    (run : Run (SessionMove ring format config) (Session.new config bus) es k)
    (eof : .endOfFile ∈ framings (es.filterMap SessionEvent.inboxed)) : k.Shut := by
  refine run_history (fun es k => .endOfFile ∈ framings (es.filterMap SessionEvent.inboxed) →
    k.Shut) ?_ ?_ run eof
  · exact fun member => absurd member List.not_mem_nil
  · rintro es k e k' before ih ⟨bus, after, step⟩ member
    by_cases old : .endOfFile ∈ framings (es.filterMap SessionEvent.inboxed)
    · exact shut_step (ih old) step
    · unfold framings at member old
      rw [filterMap_snoc, List.filterMap_append, List.mem_append] at member
      have now := member.resolve_left old
      cases step with
      | client step possible => cases now
      | writeLoop step own => cases now
      | handler step => cases step <;> cases now
      | readTask step possible =>
        cases step with
        | framed idle step =>
          generalize at_ : k.readTask.framed = framed at step
          cases step with
          | endOfFile =>
            obtain ⟨arrived, ended⟩ := possible _ rfl
            refine ⟨ended, ?_, by simp⟩
            show k.atServer ++ [] = _
            rw [List.append_nil, arrived]
          | _ => simp [SessionEvent.inboxed, InboxEvent.framing, ReadTaskEvent.framing] at now
        | _ => simp [SessionEvent.inboxed, InboxEvent.framing, ReadTaskEvent.framing] at now

section Runs

theorem disconnect_leaves {s t : System ring V} {c : Nat}
    (leave : SystemStep format config s (c, .session (.handler .disconnect)) t) :
    ∃ k, s.sessions c = some k ∧ k.handler.pc ≠ .stopped ∧
      k.handler.adapterReceiver.queue = [] ∧ k.handler.adapterReceiver.senderDropped = true := by
  cases leave with
  | session found step =>
    cases step with
    | handler step =>
      cases step with
      | disconnect at_ queue closed => exact ⟨_, found, by rw [at_]; simp, queue, closed⟩

theorem closed_soFar {ls : List (SystemLabel V)} {s : System ring V}
    (run : SystemRun format config ls s) {c : Nat} {k : Session V} (found : s.sessions c = some k)
    (running : k.handler.pc ≠ .stopped) (queue : k.handler.adapterReceiver.queue = [])
    (closed : k.handler.adapterReceiver.senderDropped = true) :
    ∃ stream tail, encodeAll format.packCommand
        (((sessionEvents c ls).filterMap SessionEvent.ofClient).filterMap ClientEvent.written) [] =
        (.ok (), stream) ∧
      ReadSoFar format.packCommand (((sessionEvents c ls).filterMap SessionEvent.ofClient).filterMap
        ClientEvent.written) k.atServer (handledFrom c ls) tail := by
  have kept := system_kept run found
  have here := System.broker_found found
  obtain ⟨stream, sent, within⟩ := commands_arrive kept
  have held : k.handler.adapterReceiver.receiverDropped = false := by
    rw [← Bool.not_eq_true]
    exact fun dropped => running (run_receiving (system_refines_from (Run.nil _) run) here dropped)
  obtain ⟨tail, read, -⟩ := inbox_ended format.commands sent kept.server within held closed
  have empty : k.serverInbox.channel.queue = [] := queue
  rw [empty, List.append_nil, ← kept.commands] at read
  exact ⟨stream, tail, sent, read⟩

/-- When the handler of a session leaves because the channel of commands is closed, it has
    handled just those commands whose frames arrived whole. -/
theorem disconnect_handled {ls : List (SystemLabel V)} {s t : System ring V}
    (run : SystemRun format config ls s) {c : Nat}
    (leave : SystemStep format config s (c, .session (.handler .disconnect)) t) :
    ∃ k stream tail, s.sessions c = some k ∧
      encodeAll format.packCommand (((sessionEvents c ls).filterMap SessionEvent.ofClient).filterMap
        ClientEvent.written) [] = (.ok (), stream) ∧
      ReadSoFar format.packCommand (((sessionEvents c ls).filterMap SessionEvent.ofClient).filterMap
        ClientEvent.written) k.atServer (handledFrom c ls) tail := by
  obtain ⟨k, found, running, queue, closed⟩ := disconnect_leaves leave
  obtain ⟨stream, tail, sent, read⟩ := closed_soFar run found running queue closed
  exact ⟨k, stream, tail, found, sent, read⟩

/-- A client that hung up in order has been served to the end: when its handler leaves, all
    that the client called for is done. -/
theorem hang_up_handles_all {ls : List (SystemLabel V)} {s t : System ring V}
    (run : SystemRun format config ls s) {c : Nat}
    (leave : SystemStep format config s (c, .session (.handler .disconnect)) t)
    (finished : .client .finished ∈ sessionEvents c ls)
    (eof : .readTask (.framed .endOfFile) ∈ sessionEvents c ls) :
    handledFrom c ls = calledBy c ls := by
  obtain ⟨k, found, running, queue, closed⟩ := disconnect_leaves leave
  obtain ⟨stream, tail, sent, read⟩ := closed_soFar run found running queue closed
  have kept := system_kept run found
  have ended : .finished ∈ (sessionEvents c ls).filterMap SessionEvent.ofClient :=
    List.mem_filterMap.mpr ⟨_, finished, rfl⟩
  have complete := finished_complete kept.client ended
  have shut : k.Shut := by
    rcases system_session run c with ⟨missing, -⟩ | ⟨k', here, bus, alone⟩
    · rw [found] at missing
      cases missing
    · obtain rfl := Option.some.inj (found.symm.trans here)
      exact eof_shut alone (List.mem_filterMap.mpr ⟨.task (.framed .endOfFile),
        List.mem_filterMap.mpr ⟨_, eof, rfl⟩, rfl⟩)
  obtain ⟨frames, packed, handed⟩ := complete.stream
  have all : k.atServer = stream := by
    have same := (encodeAll_iff _ _ [] _).mpr ⟨frames, packed, rfl⟩
    rw [shut.arrived, handed]
    exact (Prod.mk.inj (same.symm.trans sent)).2
  rw [all] at read
  exact (read.complete sent).trans complete.all

end Runs
/-! The client whose message has come back hangs up. -/

def hangingUp : List (SessionEvent UInt8) :=
  [.client .dropSenders, .client .finished, .readTask (.framed .endOfFile),
    .readTask (.framed .finished), .readTask .ended]

def hungUpSession : Session UInt8 :=
  { echoSession with
    client := ⟨⟨[], true, true⟩, .ended, echoPublish ++ echoSubscribe, .start⟩
    readTask := ⟨.ended, none⟩
    handler := { echoSession.handler with adapterReceiver := ⟨[], true, false⟩ } }

theorem hanging_up_run (bus : Bus ring Bytes) :
    LoneRun Wire.format lowLatency bus echoSession hangingUp bus hungUpSession := by
  have starved := decode_unfinished Wire.format.commands.nothing
  apply run_cons (client_run bus echoSession rfl .dropSenders)
  apply run_cons (client_run bus _ rfl (.finished rfl rfl rfl))
  apply run_cons (readTask_run bus _ rfl ?_ (.framed rfl .endOfFile))
  · apply run_cons (readTask_run bus _ rfl ?_ (.framed rfl (.finished starved)))
    · exact run_single (readTask_run bus _ rfl (by intro f here; cases here) (.ended rfl rfl rfl))
    · intro f here
      obtain rfl := Option.some.inj here
      trivial
  · intro f here
    obtain rfl := Option.some.inj here
    exact ⟨rfl, rfl⟩

theorem hung_up_run (ring : Ring) :
    SystemRun Wire.format lowLatency
      (echoSubscribing ++ echoReceiving ++ hangingUp.map fun e => (0, .session e))
      ((System.new : System ring UInt8).put (Bus.new.withTopic ['a'] echoBytes) 0 hungUpSession) := by
  have gone := lone_session ((System.new : System ring UInt8).put_self
    (Bus.new.withTopic ['a'] echoBytes) 0 echoSession) (hanging_up_run _)
  rw [System.put_put] at gone
  exact run_append (echo_run ring) gone

theorem hung_up_read : ∃ (k : Session UInt8) (tail : Bytes),
    ReadSoFar Wire.format.packCommand [.publish echoMessage, .subscribe ['a']] k.atServer
      (handledFrom 0 (echoSubscribing ++ echoReceiving ++ hangingUp.map fun e => (0, .session e)))
      tail := by
  obtain ⟨k, stream, tail, -, -, read⟩ := disconnect_handled (hung_up_run wideRing)
    (.session (System.put_self _ _ _ _) (.handler (.disconnect rfl rfl rfl)))
  exact ⟨k, tail, read⟩

theorem hung_up_handled :
    handledFrom 0 (echoSubscribing ++ echoReceiving ++ hangingUp.map fun e => (0, .session e)) =
      calledBy 0 (echoSubscribing ++ echoReceiving ++ hangingUp.map fun e => (0, .session e)) := by
  have happened : ∀ e ∈ hangingUp, e ∈ sessionEvents 0
      (echoSubscribing ++ echoReceiving ++ hangingUp.map fun e => (0, .session e)) := fun e member =>
    List.mem_filterMap.mpr ⟨_, List.mem_append_right _ (List.mem_map_of_mem member), rfl⟩
  exact hang_up_handles_all (hung_up_run wideRing)
    (.session (System.put_self _ _ _ _) (.handler (.disconnect rfl rfl rfl)))
    (happened _ (by simp [hangingUp])) (happened _ (by simp [hangingUp]))

end PubSub
