import PubSub.Delivery
import PubSub.LoneSession

/- The broker with its clients and everything between: any number of sessions at one bus,
   stepping in any order. Without the clients, the streams and the tasks that own them it is
   the broker of which the other results speak. -/
namespace PubSub
open Channels LabelledRun MsgPackCodec
variable {ring : Ring} {V : Type}

structure System (ring : Ring) (V : Type) where
  bus : Bus ring Bytes
  sessions : Nat → Option (Session V)

def System.new : System ring V := ⟨Bus.new, fun _ => none⟩

inductive SystemEvent (V : Type) where
  | connect
  | session (e : SessionEvent V)

abbrev SystemLabel (V : Type) := Nat × SystemEvent V

namespace System

def put (s : System ring V) (bus : Bus ring Bytes) (c : Nat) (k : Session V) : System ring V :=
  ⟨bus, Function.update s.sessions c (some k)⟩

def broker (s : System ring V) : Broker ring V Bytes :=
  ⟨s.bus, fun c => (s.sessions c).map Session.handler⟩

theorem put_self (s : System ring V) (bus : Bus ring Bytes) (c : Nat) (k : Session V) :
    (s.put bus c k).sessions c = some k :=
  Function.update_self _ _ _

theorem put_put (s : System ring V) (bus after : Bus ring Bytes) (c : Nat) (k k' : Session V) :
    (s.put bus c k).put after c k' = s.put after c k' := by
  simp [put]

theorem put_found {s : System ring V} {c : Nat} {k : Session V} (found : s.sessions c = some k) :
    s.put s.bus c k = s := by
  unfold put
  rw [← found, Function.update_eq_self]

theorem put_broker (s : System ring V) (bus : Bus ring Bytes) (c : Nat) (k : Session V) :
    (s.put bus c k).broker = s.broker.put bus c k.handler := by
  unfold broker put Broker.put
  congr 1
  funext d
  by_cases same : d = c
  · subst same
    simp
  · simp [Function.update_of_ne same]

theorem broker_found {s : System ring V} {c : Nat} {k : Session V}
    (found : s.sessions c = some k) : s.broker.connections c = some k.handler := by
  simp [broker, found]

end System

inductive SystemStep (format : Format V) (config : BufferConfig) (s : System ring V) :
    SystemLabel V → System ring V → Prop where
  | connect {c : Nat} (fresh : s.sessions c = none) :
      SystemStep format config s (c, .connect) (s.put s.bus c (Session.new config s.bus))
  | session {c : Nat} {k k' : Session V} {e : SessionEvent V} {bus : Bus ring Bytes}
      (found : s.sessions c = some k) (step : SessionStep format config s.bus k e bus k') :
      SystemStep format config s (c, .session e) (s.put bus c k')

abbrev SystemRun (format : Format V) (config : BufferConfig) (ls : List (SystemLabel V))
    (s : System ring V) : Prop :=
  Run (SystemStep format config) System.new ls s

/-! A client alone. -/

/-- A session may run alone for as long as it likes. -/
theorem lone_session {format : Format V} {config : BufferConfig} {s : System ring V} {c : Nat}
    {k k' : Session V} (found : s.sessions c = some k) {es : List (SessionEvent V)}
    {after : Bus ring Bytes} (run : LoneRun format config s.bus k es after k') :
    Run (SystemStep format config) s (es.map fun e => (c, .session e)) (s.put after c k') := by
  have lifted : Run (SystemStep format config) _ _ _ := run_map (fun p => s.put p.1 c p.2)
    (fun e => (c, SystemEvent.session e)) (fun _ => True) (fun _ _ _ _ _ => trivial) ?_ trivial run
  · rwa [System.put_found found] at lifted
  · rintro ⟨bus, k⟩ e ⟨after, k'⟩ - step
    show SystemStep format config (s.put bus c k) (c, .session e) (s.put after c k')
    rw [← System.put_put s bus after c k k']
    exact .session (System.put_self _ _ _ _) step

section Alone
variable {format : Format V} {config : BufferConfig} {message : Message V} {pattern : Str}
  {publish subscribe bytes : Bytes}

def aloneOpening (message : Message V) (pattern : Str) (publish subscribe bytes : Bytes) :
    List (SystemLabel V) :=
  (0, .connect) :: (echoOpening message pattern publish subscribe bytes).map
    fun e => (0, .session e)

def aloneClosing (config : BufferConfig) (message : Message V) (bytes : Bytes) :
    List (SystemLabel V) :=
  (echoClosing config message bytes).map fun e => (0, .session e)

theorem alone_opening (ring : Ring) (timed : config.flushStrategy ≠ .periodic 0)
    (packed : format.packMessage message = .ok bytes)
    (first : format.packCommand (.publish message) = .ok publish)
    (second : format.packCommand (.subscribe pattern) = .ok subscribe) :
    SystemRun format config (aloneOpening message pattern publish subscribe bytes)
      ((System.new : System ring V).put (Bus.new.withTopic message.topic bytes) 0
        (echoing config (publish ++ subscribe) (subscribedHandler message.topic pattern) .reading
          [])) := by
  have connected : SystemStep format config (System.new : System ring V) (0, .connect)
      (System.new.put Bus.new 0 (Session.new config (Bus.new : Bus ring Bytes))) := .connect rfl
  apply run_cons connected
  have alone := lone_session (System.new.put_self _ 0 _)
    (echo_opening ring timed packed first second)
  rwa [System.put_put] at alone

theorem alone_closing (ring : Ring) (packed : format.packMessage message = .ok bytes)
    (matched : GlobMatch pattern (asBytes message.topic)) (written : Bytes) :
    Run (SystemStep format config) ((System.new : System ring V).put
      (Bus.new.withTopic message.topic bytes) 0
      (echoing config written (subscribedHandler message.topic pattern) .reading []))
      (aloneClosing config message bytes)
      (System.new.put (Bus.new.withTopic message.topic bytes) 0
        (echoing config written { joinedHandler message.topic bytes pattern with
          adapterSender := Mpsc.new } .waiting bytes)) := by
  have closing : LoneRun format config _ _ _ _ _ := echo_closing ring packed matched written
  have alone := lone_session
    (System.new.put_self (Bus.new.withTopic message.topic bytes) 0 _) closing
  rwa [System.put_put] at alone

end Alone

def echoMessage : Message UInt8 := ⟨['a'], 7⟩
def echoBytes : Bytes := [0x92, 0xA1, 97, 7]
def echoPublish : Bytes := [0x81, 0xA7, 80, 117, 98, 108, 105, 115, 104, 0x91, 0x92, 0xA1, 97, 7]
def echoSubscribe : Bytes := [0x81, 0xA9, 83, 117, 98, 115, 99, 114, 105, 98, 101, 0x91, 0xA1, 97]

def echoSubscribing : List (SystemLabel UInt8) :=
  aloneOpening echoMessage ['a'] echoPublish echoSubscribe echoBytes

def echoReturning (config : BufferConfig) : List (SystemLabel UInt8) :=
  aloneClosing config echoMessage echoBytes

def echoed (config : BufferConfig) : Session UInt8 :=
  echoing config (echoPublish ++ echoSubscribe) { joinedHandler ['a'] echoBytes ['a'] with
    adapterSender := Mpsc.new } .waiting echoBytes

theorem echo_packed : Wire.format.packMessage echoMessage = .ok echoBytes := by decide

theorem echo_matches : GlobMatch ['a'] (asBytes echoMessage.topic) :=
  .literal ⟨by decide, by decide⟩ rfl .done

theorem echo_publishes : Wire.format.packCommand (.publish echoMessage) = .ok echoPublish := by
  decide

theorem echo_subscribes : Wire.format.packCommand (.subscribe ['a']) = .ok echoSubscribe := by
  decide

section Echo
variable {config : BufferConfig}

theorem echo_subscribing (ring : Ring) (timed : config.flushStrategy ≠ .periodic 0) :
    SystemRun Wire.format config echoSubscribing ((System.new : System ring UInt8).put
      (Bus.new.withTopic ['a'] echoBytes) 0
      (echoing config (echoPublish ++ echoSubscribe) (subscribedHandler ['a'] ['a']) .reading
        [])) :=
  alone_opening ring timed echo_packed echo_publishes echo_subscribes

theorem echo_returning (ring : Ring) :
    Run (SystemStep Wire.format config) ((System.new : System ring UInt8).put
      (Bus.new.withTopic ['a'] echoBytes) 0
      (echoing config (echoPublish ++ echoSubscribe) (subscribedHandler ['a'] ['a']) .reading []))
      (echoReturning config)
      (System.new.put (Bus.new.withTopic ['a'] echoBytes) 0 (echoed config)) :=
  alone_closing ring echo_packed echo_matches (echoPublish ++ echoSubscribe)

theorem echoed_run (ring : Ring) (timed : config.flushStrategy ≠ .periodic 0) :
    SystemRun Wire.format config (echoSubscribing ++ echoReturning config) ((System.new : System ring
      UInt8).put (Bus.new.withTopic ['a'] echoBytes) 0 (echoed config)) :=
  run_append (echo_subscribing ring timed) (echo_returning ring)

end Echo

def lowLatency : BufferConfig := PerformanceMode.lowLatency.toConfig

def echoReceiving : List (SystemLabel UInt8) := echoReturning lowLatency

def echoSession : Session UInt8 := echoed lowLatency

theorem echo_run (ring : Ring) :
    SystemRun Wire.format lowLatency (echoSubscribing ++ echoReceiving) ((System.new : System ring
      UInt8).put (Bus.new.withTopic ['a'] echoBytes) 0 echoSession) :=
  echoed_run ring (by decide)

/-! One session in a run of the system. -/

def SystemLabel.event (c : Nat) (l : SystemLabel V) : Option (SessionEvent V) :=
  match l.2 with
  | .connect => none
  | .session e => if l.1 = c then some e else none

def sessionEvents (c : Nat) (ls : List (SystemLabel V)) : List (SessionEvent V) :=
  ls.filterMap (SystemLabel.event c)

section Runs
variable {format : Format V} {config : BufferConfig}

theorem system_session {ls : List (SystemLabel V)} {s : System ring V}
    (run : SystemRun format config ls s) (c : Nat) :
    (s.sessions c = none ∧ sessionEvents c ls = []) ∨
    ∃ k, s.sessions c = some k ∧ ∃ bus : Bus ring Bytes,
      Run (SessionMove ring format config) (Session.new config bus) (sessionEvents c ls) k := by
  refine run_history (fun ls s => (s.sessions c = none ∧ sessionEvents c ls = []) ∨
    ∃ k, s.sessions c = some k ∧ ∃ bus : Bus ring Bytes,
      Run (SessionMove ring format config) (Session.new config bus) (sessionEvents c ls) k) ?_ ?_ run
  · exact Or.inl ⟨rfl, rfl⟩
  · rintro ls s ⟨d, e⟩ t - ih step
    by_cases own : d = c
    · subst own
      cases step with
      | connect fresh =>
        have quiet : sessionEvents d (ls ++ [(d, .connect)]) = sessionEvents d ls :=
          filterMap_snoc_none rfl ls
        rcases ih with ⟨-, nothing⟩ | ⟨k, here, -⟩
        · refine Or.inr ⟨_, System.put_self _ _ _ _, s.bus, ?_⟩
          rw [quiet, nothing]
          exact Run.nil _
        · rw [fresh] at here
          cases here
      | @session d k k' e bus found step =>
        have more : sessionEvents d (ls ++ [(d, .session e)]) = sessionEvents d ls ++ [e] :=
          filterMap_snoc_some (by simp [SystemLabel.event]) ls
        rcases ih with ⟨missing, -⟩ | ⟨k'', here, start, before⟩
        · rw [found] at missing
          cases missing
        · obtain rfl := Option.some.inj (found.symm.trans here)
          refine Or.inr ⟨k', System.put_self _ _ _ _, start, ?_⟩
          rw [more]
          exact Run.snoc before ⟨s.bus, bus, step⟩
    · have quiet : sessionEvents c (ls ++ [(d, e)]) = sessionEvents c ls := by
        apply filterMap_snoc_none
        unfold SystemLabel.event
        cases e <;> simp [own]
      have still : t.sessions c = s.sessions c := by
        cases step <;> exact Function.update_of_ne (Ne.symm own) _ _
      rw [quiet, still]
      exact ih

theorem system_kept {ls : List (SystemLabel V)} {s : System ring V}
    (run : SystemRun format config ls s) {c : Nat} {k : Session V}
    (found : s.sessions c = some k) : k.Kept format config (sessionEvents c ls) := by
  rcases system_session run c with ⟨missing, -⟩ | ⟨k', here, bus, alone⟩
  · rw [found] at missing
    cases missing
  · obtain rfl := Option.some.inj (found.symm.trans here)
    exact session_kept alone

/-! The broker in a run of the system. -/

def SessionEvent.acts : SessionEvent V → List (Act V Bytes)
  | .handler a => if a.handles then [a] else []
  | .readTask (.sent command) => [.deliver command]
  | .readTask .ended => [.hangUp]
  | .writeLoop e => e.acts
  | _ => []

/-- A writer with an interval of no length is gone before the first message. -/
def SystemEvent.acts (config : BufferConfig) : SystemEvent V → List (Act V Bytes)
  | .connect => .connect :: if config.flushStrategy = .periodic 0 then [.writerStopped] else []
  | .session e => e.acts

def SystemLabel.labels (config : BufferConfig) (l : SystemLabel V) : List (Label V Bytes) :=
  (l.2.acts config).map (Prod.mk l.1)

def brokerLabels (config : BufferConfig) (ls : List (SystemLabel V)) : List (Label V Bytes) :=
  ls.flatMap (SystemLabel.labels config)

theorem sessionStep_broker {s : System ring V} {bus : Bus ring Bytes} {c : Nat}
    {es : List (SessionEvent V)} {k k' : Session V} {e : SessionEvent V}
    (kept : k.Kept format config es) (found : s.sessions c = some k)
    (step : SessionStep format config s.bus k e bus k') :
    Run (BrokerStep format.encode) s.broker (e.acts.map (Prod.mk c)) (s.put bus c k').broker := by
  have here := System.broker_found found
  have adapters : ∀ {acts : List (Act V Bytes)} {h : ConnectionHandler V Bytes},
      Run AdapterStep k.handler acts h →
      Run (BrokerStep format.encode) s.broker (acts.map (Prod.mk c)) (s.broker.put s.bus c h) := by
    intro acts h alone
    have taken : SoloRun format.encode s.bus k.handler (acts.map id) s.bus h :=
      run_map (Prod.mk s.bus) id (fun _ => True) (fun _ _ _ _ _ => trivial)
        (fun _ _ _ _ step => .adapter step) trivial alone
    rw [List.map_id] at taken
    exact solo_run here taken
  rw [System.put_broker]
  cases step with
  | client step possible => exact adapters (Run.nil _)
  | readTask step possible =>
    cases step with
    | framed idle step => exact adapters (Run.nil _)
    | sent held running room => exact adapters (run_single (.deliver running room))
    | dropped held closed => exact adapters (Run.nil _)
    | ended done idle => exact adapters (run_single .hangUp)
  | writeLoop step own => exact adapters (writeStep_adapter kept.loop step own rfl)
  | handler step =>
    rw [SessionEvent.acts, if_pos (handlerStep_left step).1]
    exact run_single (.handler here step)

theorem connect_broker {s : System ring V} {c : Nat} (fresh : s.sessions c = none) :
    Run (BrokerStep format.encode) s.broker (SystemLabel.labels config (c, .connect))
      (s.put s.bus c (Session.new config s.bus)).broker := by
  have missing : s.broker.connections c = none := by simp [System.broker, fresh]
  have joined : BrokerStep format.encode s.broker (c, .connect)
      (s.broker.put s.bus c (ConnectionHandler.new s.bus)) := .connect missing
  rw [System.put_broker]
  unfold SystemLabel.labels SystemEvent.acts Session.new WriteLoop.start
  split_ifs with never
  · have stopped : BrokerStep format.encode (s.broker.put s.bus c (ConnectionHandler.new s.bus))
        (c, .writerStopped) _ := .adapter (Broker.put_self _ _ _ _) .writerStopped
    rw [put_put] at stopped
    exact run_cons joined (run_single stopped)
  · exact run_single joined

theorem system_refines_from {ls more : List (SystemLabel V)} {s t : System ring V}
    (reached : SystemRun format config ls s) (run : Run (SystemStep format config) s more t) :
    Run (BrokerStep format.encode) s.broker (brokerLabels config more) t.broker := by
  refine run_flatMap System.broker (SystemLabel.labels config) ?_ run
  intro sofar m l n before step
  cases step with
  | connect fresh => exact connect_broker fresh
  | session found step =>
    exact sessionStep_broker (system_kept (run_append reached before) found) found step

/-- Every run of the system is one of the broker, in which the tasks at the ends of each
    connection's channels do no more than the broker lets them. -/
theorem system_refines_broker {ls : List (SystemLabel V)} {s : System ring V}
    (run : SystemRun format config ls s) :
    BrokerRun format.encode (brokerLabels config ls) s.broker :=
  system_refines_from (Run.nil _) run

end Runs

theorem echo_refines : ∃ s : System wideRing UInt8,
    SystemRun Wire.format lowLatency (echoSubscribing ++ echoReceiving) s ∧
    BrokerRun Wire.format.encode (brokerLabels lowLatency (echoSubscribing ++ echoReceiving)) s.broker :=
  ⟨_, echo_run wideRing, system_refines_broker (echo_run wideRing)⟩

end PubSub
