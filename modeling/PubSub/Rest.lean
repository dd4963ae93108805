import PubSub.Settling
import PubSub.TreeInvariant

/- How a session comes to rest that is whole when it is left to itself. Nothing that its tasks
   do ends one of them, if what the client called for can be encoded; so it stays whole, and
   when everything has come to rest, all it was called for is done, whatever became of the
   other sessions. -/
namespace PubSub
open Channels LabelledRun StreamParsing MsgPackCodec
variable {ring : Ring} {T V : Type}

/-! The end of a stream. -/

section Reader
variable {fromRead : Parser UInt8 DecodeError T} {f f' : FramedRead} {e : FramedEvent T}

theorem framedStep_finishing (step : FramedStep fromRead f e f') {src : Bytes}
    (finishing : f' = .finishing src) : e = .endOfFile ∨ ∃ before, f = .finishing before := by
  cases step with
  | endOfFile => exact Or.inl rfl
  | last read => exact Or.inr ⟨_, rfl⟩
  | _ => cases finishing

theorem framedStep_reading (own : (ReadTaskEvent.framed e).Own)
    (streaming : ∀ src, f ≠ .finishing src) (opened : ∀ src, f ≠ .streaming ⟨src, .closed⟩)
    (step : FramedStep fromRead f e f') : f' ≠ .ended := by
  cases step with
  | read step => simp
  | closed => exact absurd rfl (opened _)
  | socket => exact own.elim
  | endOfFile => exact own.elim
  | _ => exact absurd rfl (streaming _)

theorem inbox_opened {serialize : T → Except String Bytes} {xs : List T} {stream : Bytes}
    (law : ReadsBack fromRead serialize) (sent : encodeAll serialize xs [] = (.ok (), stream))
    {es : List (InboxEvent T)} {s : Inbox T} (run : InboxRun fromRead es s)
    (within : arrivedIn (framings es) <+: stream) (src : Bytes) :
    s.task.framed ≠ .streaming ⟨src, .closed⟩ := by
  obtain ⟨d, placed⟩ := framed_placed law sent (run_kept run).framed within
  intro closed
  have stage := placed.stage
  rw [closed] at stage
  have opened := placed.reading.opened
  rw [← stage.1] at opened
  exact opened rfl

theorem readTaskStep_reading {r r' : ReadTask T} {channel after : Mpsc channelBufferSize T}
    {e : ReadTaskEvent T} (own : e.Own) (running : r.framed ≠ .ended)
    (streaming : ∀ src, r.framed ≠ .finishing src)
    (opened : ∀ src, r.framed ≠ .streaming ⟨src, .closed⟩)
    (step : ReadTaskStep fromRead r channel e r' after) :
    r'.framed ≠ .ended ∧ after.receiverDropped = channel.receiverDropped := by
  cases step with
  | framed idle step => exact ⟨framedStep_reading own streaming opened step, rfl⟩
  | ended done => exact absurd done running
  | _ => exact ⟨running, rfl⟩

end Reader

section Session
variable {format : Format V} {config : BufferConfig} {bus after : Bus ring Bytes}
  {k k' : Session V}

/-- A stream has an end only where the other side has shut it. -/
structure Session.Coupled (k : Session V) : Prop where
  server : ∀ src, k.readTask.framed = .finishing src → k.client.writer = .ended
  client : ∀ src, k.client.inbox.task.framed = .finishing src → ∃ how, k.loopPc = .ended how

theorem clientStep_ended {k k' : Client V} {e : ClientEvent V} (ended : k.writer = .ended)
    (step : ClientStep format k e k') : k'.writer = .ended := by
  cases step with
  | write at_ => exact absurd (ended.symm.trans at_) (by simp)
  | hand at_ => exact absurd (ended.symm.trans at_) (by simp)
  | flushed at_ => exact absurd (ended.symm.trans at_) (by simp)
  | unencodable => rfl
  | broken => rfl
  | finished => rfl
  | _ => exact ended

theorem writeStep_ended {s t : WriteLoop} {e : LoopEvent} {how : LoopEnd}
    (ended : s.pc = .ended how) (step : WriteStep config s e t) : ∃ how, t.pc = .ended how := by
  cases step with
  | loop step =>
    cases step with
    | leave at_ => exact ⟨.drained, rfl⟩
    | _ at_ => exact absurd (ended.symm.trans at_) (by simp)
  | writeFailed => exact ⟨.failed, rfl⟩
  | flushFailed => exact ⟨.failed, rfl⟩
  | _ => exact ⟨how, ended⟩

theorem readTaskStep_finishing {fromRead : Parser UInt8 DecodeError T} {r r' : ReadTask T}
    {channel after : Mpsc channelBufferSize T} {e : ReadTaskEvent T} {src : Bytes}
    (finishing : r'.framed = .finishing src) (step : ReadTaskStep fromRead r channel e r' after) :
    e.framing = some .endOfFile ∨ ∃ before, r.framed = .finishing before := by
  cases step with
  | framed idle step =>
    rcases framedStep_finishing step finishing with rfl | before
    · exact Or.inl rfl
    · exact Or.inr before
  | _ => exact Or.inr ⟨src, finishing⟩

theorem sessionStep_coupled {e : SessionEvent V} (coupled : k.Coupled)
    (step : SessionStep format config bus k e after k') : k'.Coupled := by
  cases step with
  | client step possible =>
    refine ⟨fun src finishing => clientStep_ended (coupled.server src finishing) step, ?_⟩
    intro src finishing
    cases step with
    | inbox step =>
      cases step with
      | task step =>
        rcases readTaskStep_finishing finishing step with eof | ⟨before, was⟩
        · exact (possible .endOfFile eof).2
        · exact coupled.client before was
      | _ => exact coupled.client src finishing
    | _ => exact coupled.client src finishing
  | readTask step possible =>
    refine ⟨fun src finishing => ?_, coupled.client⟩
    rcases readTaskStep_finishing finishing step with eof | ⟨before, was⟩
    · exact (possible .endOfFile eof).2
    · exact coupled.server before was
  | writeLoop step only =>
    refine ⟨coupled.server, fun src finishing => ?_⟩
    obtain ⟨how, ended⟩ := coupled.client src finishing
    exact writeStep_ended ended step
  | handler step => exact ⟨coupled.server, coupled.client⟩

theorem session_coupled {es : List (SessionEvent V)}
    (run : Run (SessionMove ring format config) (Session.new config bus) es k) : k.Coupled := by
  refine run_invariant Session.Coupled ?_ ?_ run
  · constructor
    · intro src finishing
      cases finishing
    · intro src finishing
      cases finishing
  · rintro k e k' coupled ⟨bus, after, step⟩
    exact sessionStep_coupled coupled step

/-! What keeps a session whole. -/

/-- The tasks of a session meet nothing that would end them. -/
structure Session.Untroubled (format : Format V) (k : Session V) : Prop where
  packed : ∀ command ∈ k.client.commands.queue, ∃ frame, format.packCommand command = .ok frame
  server : ∀ src, k.readTask.framed ≠ .streaming ⟨src, .closed⟩
  client : ∀ src, k.client.inbox.task.framed ≠ .streaming ⟨src, .closed⟩
  coupled : k.Coupled
  hungUp : k.handler.adapterReceiver.senderDropped = true → k.readTask.framed = .ended
  removes : ∀ pattern panic, k.handler.subscriptions.remove pattern ≠ .error panic
  listening : Listening k.writeLoop

theorem clientStep_live {e : ClientEvent V} {k' : Client V} (untroubled : k.Untroubled format)
    (live : k.Live) (own : e.Own) (step : ClientStep format k.client e k') :
    k'.writer ≠ .ended ∧ k'.inbox.task.framed ≠ .ended ∧ k'.inbox.channel.receiverDropped = false := by
  cases step with
  | write at_ queue packed => exact ⟨by simp, live.reader, live.receiver⟩
  | hand at_ => exact ⟨by simp, live.reader, live.receiver⟩
  | flushed at_ => exact ⟨by simp, live.reader, live.receiver⟩
  | unencodable at_ queue failed =>
    obtain ⟨frame, packed⟩ := untroubled.packed _ (by rw [queue]; exact List.mem_cons_self)
    rw [packed] at failed
    cases failed
  | inbox step =>
    refine ⟨live.writer, ?_⟩
    have streaming : ∀ src, k.client.inbox.task.framed ≠ .finishing src := by
      intro src finishing
      obtain ⟨how, ended⟩ := untroubled.coupled.client src finishing
      exact live.writeLoop how ended
    cases step with
    | task step =>
      obtain ⟨running, same⟩ :=
        readTaskStep_reading own live.reader streaming untroubled.client step
      exact ⟨running, same.trans live.receiver⟩
    | taken queue => exact ⟨live.reader, live.receiver⟩
    | closed => exact own.elim
  | _ => exact own.elim

theorem handlerStep_live {a : Act V Bytes} {h : ConnectionHandler V Bytes}
    (untroubled : k.Untroubled format) (live : k.Live)
    (step : HandlerStep format.encode bus k.handler a after h) : h.pc ≠ .stopped := by
  cases step with
  | disconnect at_ queue closed => exact absurd (untroubled.hungUp closed) live.readTask
  | panicked at_ failed => exact absurd failed (untroubled.removes _ _)
  | forwardFailed at_ closed =>
    have open_ : k.handler.adapterSender.receiverDropped = false :=
      untroubled.listening live.writeLoop
    rw [closed] at open_
    cases open_
  | _ => simp [ConnectionHandler.goto]

theorem loopStep_running {s t : WriteLoop} {e : LoopEvent} (running : e ≠ .leave)
    (step : LoopStep config s e t) (how : LoopEnd) : t.pc ≠ .ended how := by
  cases step with
  | strategy at_ =>
    show s.afterWrite config ≠ _
    unfold WriteLoop.afterWrite
    split
    · simp
    · split_ifs <;> simp
    · simp
  | leave => exact absurd rfl running
  | _ => simp [WriteLoop.goto]

theorem sessionStep_live {e : SessionEvent V} (untroubled : k.Untroubled format) (live : k.Live)
    (own : e.Own k) (step : SessionStep format config bus k e after k') : k'.Live := by
  have tasks := live
  obtain ⟨writer, readTask, handler, writeLoop, reader, receiver⟩ := tasks
  cases step with
  | client step possible =>
    obtain ⟨writing, reading, receiving⟩ := clientStep_live untroubled live own step
    exact ⟨writing, readTask, handler, writeLoop, reading, receiving⟩
  | readTask step possible =>
    have streaming : ∀ src, k.readTask.framed ≠ .finishing src :=
      fun src finishing => writer (untroubled.coupled.server src finishing)
    exact ⟨writer, (readTaskStep_reading own readTask streaming untroubled.server step).1, handler,
      writeLoop, reader, receiver⟩
  | writeLoop step only =>
    cases step with
    | loop step =>
      have running := loopStep_running (fun same => by subst same; exact own) step
      exact ⟨writer, readTask, handler, running, reader, receiver⟩
    | _ => exact own.elim
  | handler step =>
    exact ⟨writer, readTask, handlerStep_live untroubled live step, writeLoop, reader, receiver⟩

end Session

/-! A session in the system. -/

section System
variable {format : Format V} {config : BufferConfig} {held : Nat → SessionEvent V → Prop}
  {s t : System ring V} {ls more : List (SystemLabel V)} {c : Nat} {k : Session V}

def Packable (format : Format V) (c : Nat) (ls : List (SystemLabel V)) : Prop :=
  ∀ command ∈ calledBy c ls, ∃ frame, format.packCommand command = .ok frame

theorem run_untroubled (run : SystemRun format config ls s) (found : s.sessions c = some k)
    (packable : Packable format c ls) : k.Untroubled format := by
  have kept := system_kept run found
  have client := client_kept kept.client
  have here := System.broker_found found
  obtain ⟨stream, commands, within⟩ := commands_arrive kept
  have messages := messagesTo_stream run c
  constructor
  · intro command queued
    apply packable command
    rw [calledBy, client.order]
    exact List.mem_append_right _ queued
  · exact inbox_opened format.commands commands kept.server within
  · exact inbox_opened format.messages messages client.inbox (messages_arrive kept)
  · rcases system_session run c with ⟨missing, -⟩ | ⟨k', here, bus, alone⟩
    · rw [found] at missing
      cases missing
    · obtain rfl := Option.some.inj (found.symm.trans here)
      exact session_coupled alone
  · exact fun dropped => ((run_kept kept.server).ended dropped).1
  · intro pattern panic failed
    obtain ⟨calls, tree, -⟩ := (run_traced (system_refines_from (Run.nil _) run) here).tree
    obtain ⟨result, after, done⟩ :=
      GlobTree.remove_returns (GlobTree.reachable_wellFormed ⟨calls, tree⟩) pattern
    rw [done] at failed
    cases failed
  · exact run_listening kept.loop

theorem own_uncalled {k : Session V} {e : SessionEvent V} (own : e.Own k) :
    e.ofClient.bind ClientEvent.called = none := by
  cases e with
  | client e =>
    cases e with
    | call command => exact own.elim
    | _ => rfl
  | _ => rfl

theorem move_calls {l : SystemLabel V} (move : SystemMove format config held s l t) (c : Nat)
    (ls : List (SystemLabel V)) : calledBy c (ls ++ [l]) = calledBy c ls := by
  have read : ∀ ls : List (SystemLabel V), calledBy c ls =
      ls.filterMap fun l => (l.event c).bind fun e => e.ofClient.bind ClientEvent.called := by
    intro ls
    unfold calledBy sessionEvents
    rw [List.filterMap_filterMap, List.filterMap_filterMap]
  rw [read, read]
  apply filterMap_snoc_none
  cases move with
  | @session d k k' e bus found own free step =>
    unfold SystemLabel.event
    by_cases mine : d = c
    · simp [mine, own_uncalled own]
    · simp [mine]

theorem moves_live (run : SystemRun format config ls s) (found : s.sessions c = some k)
    (live : k.Live) (packable : Packable format c ls)
    (moves : Run (SystemMove format config held) s more t) :
    SystemRun format config (ls ++ more) t ∧ calledBy c (ls ++ more) = calledBy c ls ∧
      ∃ k', t.sessions c = some k' ∧ k'.Live := by
  refine run_history (fun more t => SystemRun format config (ls ++ more) t ∧
    calledBy c (ls ++ more) = calledBy c ls ∧ ∃ k', t.sessions c = some k' ∧ k'.Live) ?_ ?_ moves
  · rw [List.append_nil]
    exact ⟨run, rfl, k, found, live⟩
  · rintro more t l u - ⟨reached, calls, k, found, live⟩ move
    have further := Run.snoc reached (move_step move)
    rw [List.append_assoc] at further
    have same := move_calls move c (ls ++ more)
    rw [List.append_assoc, calls] at same
    refine ⟨further, same, ?_⟩
    cases move with
    | @session d k₁ k₂ e bus here own free step =>
      by_cases mine : c = d
      · subst mine
        obtain rfl := Option.some.inj (found.symm.trans here)
        have untroubled := run_untroubled reached found (by
          unfold Packable
          rw [calls]
          exact packable)
        exact ⟨k₂, System.put_self _ _ _ _, sessionStep_live untroubled live own step⟩
      · exact ⟨k, (Function.update_of_ne mine _ _).trans found, live⟩

/-- Left to themselves, in whatever order they are run, the tasks of all sessions come to rest,
    also where some of them are held up for ever: their own steps, ticks of an idle timer not
    among them, are finitely many. Then the handler of every other session that
    was whole has handled each command that its client had called for, if they could be
    encoded, and the client has received each message that was enqueued for it. -/
theorem system_comes_to_rest (held : Nat → SessionEvent V → Prop)
    (run : SystemRun format config ls s) :
    EndsWithin (SystemMove format config held) (fun _ => 0) (System.Rests format config held) 0 s ∧
    ∀ more t, Run (SystemMove format config held) s more t → t.Rests format config held →
      ∀ c k, s.sessions c = some k → k.Live → Packable format c ls → (∀ e, ¬ held c e) →
        handledFrom c (ls ++ more) = calledBy c ls ∧
          receivedBy c (ls ++ more) = messagesTo format c (ls ++ more) := by
  refine ⟨system_settles held run, fun more t moves rests c k found live packable free => ?_⟩
  obtain ⟨reached, calls, k', here, whole⟩ := moves_live run found live packable moves
  have quiet : k'.Quiet format config t.bus :=
    fun e after k'' own step => rests _ _ (.session here own (free e) step)
  exact ⟨(quiet_handled reached here whole quiet).trans calls, quiet_received reached here whole quiet⟩

end System

theorem echo_comes_to_rest : ∃ s : System wideRing UInt8,
    SystemRun Wire.format lowLatency echoSubscribing s ∧
    EndsWithin (SystemMove Wire.format lowLatency fun c _ => c ≠ 0) (fun _ => 0)
      (System.Rests Wire.format lowLatency fun c _ => c ≠ 0) 0 s ∧
    ∀ more t, Run (SystemMove Wire.format lowLatency fun c _ => c ≠ 0) s more t →
      (t.Rests Wire.format lowLatency fun c _ => c ≠ 0) →
      handledFrom 0 (echoSubscribing ++ more) = [.publish echoMessage, .subscribe ['a']] := by
  have run : SystemRun Wire.format lowLatency echoSubscribing _ :=
    echo_subscribing wideRing (by decide)
  obtain ⟨ends, done⟩ := system_comes_to_rest (fun c _ => c ≠ 0) run
  refine ⟨_, run, ends, fun more t moves rests => ?_⟩
  refine (done more t moves rests 0 _ (System.put_self _ _ _ _) ?_ ?_ fun e away => away rfl).1
  · constructor <;> simp [echoing, subscribedHandler, Client.resting, Inbox.start,
      ReadTask.start, FramedRead.start, Mpsc.new]
  · intro command called
    have calls : calledBy 0 echoSubscribing = [.publish echoMessage, .subscribe ['a']] := by rfl
    rw [calls] at called
    rcases List.mem_pair.mp called with rfl | rfl
    · exact ⟨echoPublish, by decide⟩
    · exact ⟨echoSubscribe, by decide⟩

end PubSub
