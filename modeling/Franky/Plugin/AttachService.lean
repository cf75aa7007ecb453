import Franky.Plugin.RemoteService

/-!
# Connecting tabs to agents

A tab that connects to a process registers a subject for it.  Another thread
attaches to the process, which loads an agent there, and subscribes to the
subject.  The first INIT message of the process completes the subject that is
registered then.  So the order of these events decides which agent a tab gets.
-/

namespace Franky
namespace Plugin

open Foundation
open Protocol

/-!
## The service
-/

/-- `AsyncSubject`, with the value it was completed with.  This is the one that
its subscribers get, early or late. -/
structure ChannelSubject extends AsyncSubject Nat where
  latest : Option Nat
deriving DecidableEq, Repr

namespace ChannelSubject

def fresh : ChannelSubject := { AsyncSubject.fresh with latest := none }

def onNext (subject : ChannelSubject) (x : Nat) : ChannelSubject :=
  { subject with toAsyncSubject := subject.toAsyncSubject.onNext x }

/-- A subject completes once. -/
def onCompleted (subject : ChannelSubject) : ChannelSubject :=
  { toAsyncSubject := subject.toAsyncSubject.onCompleted
    latest := if subject.completed then subject.latest else subject.value }

end ChannelSubject

/-- `VirtualMachine.attach`, which is called once. -/
inductive Attach where
  | pending
  | failed
  | attached
deriving DecidableEq, Repr

/-- A call of `JVMAttachService.connect`, with the instance of the session that
it has emitted.  It is `subscribed` when `zipWith` has subscribed to
`channelObs`. -/
structure Connection where
  id : Int32
  channelObs : ChannelSubject
  attach : Attach
  subscribed : Bool
  session : Option Nat
deriving DecidableEq, Repr

namespace Connection

def start (id : Int32) : Connection :=
  { id := id, channelObs := ChannelSubject.fresh, attach := Attach.pending,
    subscribed := false, session := none }

/-- The callable returns or throws. -/
def attachReturns (conn : Connection) (succeeds : Bool) : Connection :=
  match conn.attach with
  | Attach.pending =>
      { conn with
        attach := if succeeds then Attach.attached else Attach.failed }
  | _ => conn

/-- `zipWith` subscribes to `channelObs` when the callable has returned. -/
def subscribe (conn : Connection) : Connection :=
  if conn.attach = Attach.attached ∧ conn.subscribed = false then
    { conn with subscribed := true, session := conn.channelObs.latest }
  else conn

/-- `onNext` and `onCompleted` of the subject. -/
def complete (conn : Connection) (i : Nat) : Connection :=
  { conn with
    channelObs := (conn.channelObs.onNext i).onCompleted
    session :=
      if conn.subscribed && !conn.channelObs.completed then some i
      else conn.session }

end Connection

/-- `JVMAttachService` and the `JVMRemoteService` it uses.  A connection is
known by its number, and so is its subject. -/
structure JVMAttachService where
  jvms : Int32 -> Option Nat
  connections : List Connection
  instances : List JVMRemoteInstance

namespace JVMAttachService

def initial : JVMAttachService :=
  { jvms := fun _ => none, connections := [], instances := [] }

/-- `JVMAttachService.connect`, up to its first subscription. -/
def connect (s : JVMAttachService) (id : Int32) : JVMAttachService :=
  { s with
    jvms := Function.update s.jvms id (some s.connections.length)
    connections := s.connections ++ [Connection.start id] }

/-- `JVMRemoteService.setChan`. -/
def setChan (s : JVMAttachService) (id : Int32) (channel : Nat) :
    Option JVMAttachService :=
  match s.jvms id with
  | none => none
  | some c =>
      some
        { s with
          connections := s.connections.modify c
            (fun conn => conn.complete s.instances.length)
          instances := s.instances ++ [{ chan := channel, response := [] }] }

/-- `jvms[id]?.value`. -/
def current (s : JVMAttachService) (id : Int32) : Option Nat :=
  (s.jvms id).bind (fun c =>
    (s.connections[c]?).bind (fun conn => conn.channelObs.value))

/-- `JVMRemoteService.result`. -/
def result (s : JVMAttachService) (id : Int32) (msg : Response) :
    JVMAttachService :=
  match s.current id with
  | none => s
  | some i =>
      { s with
        instances := s.instances.modify i
          (fun jvm => { jvm with response := jvm.response ++ [msg] }) }

def channelRead0 (s : JVMAttachService) (channel : Nat) (msg : Response) :
    JVMAttachService :=
  match msg.type with
  | ResponseType.init => (s.setChan msg.id channel).getD s
  | ResponseType.profInfo => s.result msg.id msg

end JVMAttachService

/-- What happens on the UI thread and on the threads that attach. -/
inductive AttachEvent where
  | connect (id : Int32)
  | attach (c : Nat) (succeeds : Bool)
  | subscribe (c : Nat)
  | read (channel : Nat) (msg : Response)
deriving DecidableEq, Repr

def JVMAttachService.step (s : JVMAttachService) :
    AttachEvent -> JVMAttachService
  | AttachEvent.connect id => s.connect id
  | AttachEvent.attach c succeeds =>
      { s with
        connections := s.connections.modify c
          (fun conn => conn.attachReturns succeeds) }
  | AttachEvent.subscribe c =>
      { s with connections := s.connections.modify c Connection.subscribe }
  | AttachEvent.read channel msg => s.channelRead0 channel msg

def attended (events : List AttachEvent) : JVMAttachService :=
  Machine.run JVMAttachService.step JVMAttachService.initial events

/-- The channel of the session that a connection has emitted. -/
def JVMAttachService.sessionChan (s : JVMAttachService) (c : Nat) :
    Option Nat :=
  (s.connections[c]?).bind (fun conn =>
    conn.session.bind (fun i => (s.instances[i]?).map JVMRemoteInstance.chan))

/-!
## Subjects by process

The subject that a process has is one of a connection to it.  So the service may
as well keep the subjects themselves, as long as nobody asks who waits for them.
-/

variable {s : JVMAttachService}

def JVMAttachService.service (s : JVMAttachService) : JVMRemoteService :=
  { jvms := fun id => (s.jvms id).bind (fun c =>
      (s.connections[c]?).map (fun conn => conn.channelObs.toAsyncSubject))
    instances := s.instances }

def AttachEvent.remote : AttachEvent -> Option RemoteEvent
  | connect id => some (RemoteEvent.connect id)
  | attach _ _ => none
  | subscribe _ => none
  | read channel msg => some (RemoteEvent.read channel msg)

def JVMAttachService.Registered (s : JVMAttachService) : Prop :=
  forall id c, s.jvms id = some c ->
    exists conn, s.connections[c]? = some conn ∧ conn.id = id

theorem JVMAttachService.Registered.connect (h : s.Registered) (id : Int32) :
    (s.connect id).Registered := by
  intro id' c hc
  rcases eq_or_ne id' id with rfl | hne
  · have hlast : some s.connections.length = some c := by
      simpa [JVMAttachService.connect] using hc
    cases hlast
    exact ⟨_, List.getElem?_concat_length, rfl⟩
  · have hold : s.jvms id' = some c := by
      simpa [JVMAttachService.connect, hne] using hc
    rcases h id' c hold with ⟨conn, hconn, hid⟩
    refine ⟨conn, ?_, hid⟩
    exact (List.getElem?_append_left
      (List.getElem?_eq_some_iff.mp hconn).1).trans hconn

theorem JVMAttachService.Registered.modify (h : s.Registered)
    {f : Connection -> Connection} (hf : forall conn, (f conn).id = conn.id) (c : Nat)
    (instances : List JVMRemoteInstance) :
    JVMAttachService.Registered
      { s with
        connections := s.connections.modify c f, instances := instances } := by
  intro id c' hc'
  rcases h id c' hc' with ⟨conn, hconn, hid⟩
  refine ⟨if c = c' then f conn else conn, ?_, ?_⟩
  · simp [List.getElem?_modify, hconn]
  · split
    · rw [hf, hid]
    · exact hid

theorem attachReturns_frame (conn : Connection) (succeeds : Bool) :
    (conn.attachReturns succeeds).id = conn.id ∧
      (conn.attachReturns succeeds).channelObs = conn.channelObs := by
  unfold Connection.attachReturns
  split <;> exact ⟨rfl, rfl⟩

theorem subscribe_frame (conn : Connection) :
    conn.subscribe.id = conn.id ∧
      conn.subscribe.channelObs = conn.channelObs := by
  unfold Connection.subscribe
  split <;> exact ⟨rfl, rfl⟩

theorem service_connect (h : s.Registered) (id : Int32) :
    (s.connect id).service = s.service.init id := by
  have hjvms : (s.connect id).service.jvms =
      Function.update s.service.jvms id (some AsyncSubject.fresh) := by
    funext id'
    rcases eq_or_ne id' id with rfl | hne
    · simp [JVMAttachService.service, JVMAttachService.connect,
        Connection.start, ChannelSubject.fresh]
    · rw [Function.update_of_ne hne]
      cases hc : s.jvms id' with
      | none =>
          simp [JVMAttachService.service, JVMAttachService.connect, hne, hc]
      | some c =>
          rcases h id' c hc with ⟨conn, hconn, _⟩
          have hlt := (List.getElem?_eq_some_iff.mp hconn).1
          simp [JVMAttachService.service, JVMAttachService.connect, hne, hc,
            List.getElem?_append_left hlt]
  unfold JVMRemoteService.init
  rw [← hjvms]
  rfl

theorem service_modify {f : Connection -> Connection}
    (hf : forall conn, (f conn).channelObs = conn.channelObs) (c : Nat) :
    JVMAttachService.service
      { s with connections := s.connections.modify c f } = s.service := by
  unfold JVMAttachService.service
  congr 1
  funext id
  cases s.jvms id with
  | none => rfl
  | some c' =>
      simp only [Option.bind_some, List.getElem?_modify]
      cases s.connections[c']? with
      | none => rfl
      | some conn => by_cases hc : c = c' <;> simp [hc, hf]

theorem service_current (s : JVMAttachService) (id : Int32) :
    s.service.current id = s.current id := by
  simp only [JVMRemoteService.current, JVMAttachService.current,
    JVMAttachService.service]
  cases s.jvms id with
  | none => rfl
  | some c => cases hc : s.connections[c]? <;> simp [hc]

theorem service_result (s : JVMAttachService) (id : Int32) (msg : Response) :
    (s.result id msg).service = s.service.result id msg := by
  unfold JVMAttachService.result JVMRemoteService.result
  rw [service_current]
  cases s.current id <;> rfl

theorem service_setChan (h : s.Registered) (id : Int32) (channel : Nat) :
    (s.setChan id channel).map JVMAttachService.service =
      s.service.setChan id channel := by
  unfold JVMAttachService.setChan JVMRemoteService.setChan
  cases hc : s.jvms id with
  | none => simp [JVMAttachService.service, hc]
  | some c =>
      rcases h id c hc with ⟨conn, hconn, hid⟩
      have hsubject : s.service.jvms id =
          some conn.channelObs.toAsyncSubject := by
        simp [JVMAttachService.service, hc, hconn]
      rw [hsubject, Option.map_some]
      simp only [JVMAttachService.service]
      congr 2
      funext id'
      rcases eq_or_ne id' id with rfl | hne
      · simp [hc, hconn, List.getElem?_modify, Connection.complete,
          ChannelSubject.onCompleted, ChannelSubject.onNext]
      · rw [Function.update_of_ne hne]
        cases hc' : s.jvms id' with
        | none => rfl
        | some c' =>
            have hother : c ≠ c' := by
              rintro rfl
              rcases h id' c hc' with ⟨conn', hconn', hid'⟩
              rw [hconn] at hconn'
              cases hconn'
              exact hne (hid'.symm.trans hid)
            cases hconn' : s.connections[c']? <;>
              simp [List.getElem?_modify, hother, hconn']

theorem JVMAttachService.Registered.step (h : s.Registered)
    (event : AttachEvent) : (s.step event).Registered := by
  cases event with
  | connect id => exact h.connect id
  | attach c succeeds =>
      exact h.modify
        (fun conn => (attachReturns_frame conn succeeds).left) c s.instances
  | subscribe c =>
      exact h.modify (fun conn => (subscribe_frame conn).left) c
        s.instances
  | read channel msg =>
      change (s.channelRead0 channel msg).Registered
      unfold JVMAttachService.channelRead0
      cases msg.type with
      | init =>
          dsimp only
          unfold JVMAttachService.setChan
          cases s.jvms msg.id with
          | none => exact h
          | some c =>
              exact h.modify (f := fun conn =>
                conn.complete s.instances.length) (fun conn => rfl) c _
      | profInfo =>
          dsimp only
          unfold JVMAttachService.result
          cases s.current msg.id with
          | none => exact h
          | some i => exact fun id c hc => h id c hc

theorem service_step (h : s.Registered) (event : AttachEvent) :
    (s.step event).service =
      Machine.run JVMRemoteService.step s.service event.remote.toList := by
  cases event with
  | connect id => exact service_connect h id
  | attach c succeeds =>
      exact service_modify
        (fun conn => (attachReturns_frame conn succeeds).right) c
  | subscribe c =>
      exact service_modify (fun conn => (subscribe_frame conn).right) c
  | read channel msg =>
      change (s.channelRead0 channel msg).service =
        s.service.channelRead0 channel msg
      unfold JVMAttachService.channelRead0 JVMRemoteService.channelRead0
      cases msg.type with
      | init =>
          dsimp only
          rw [← service_setChan h]
          cases s.setChan msg.id channel <;> rfl
      | profInfo => exact service_result s msg.id msg

theorem attended_concat (events : List AttachEvent) (event : AttachEvent) :
    attended (events ++ [event]) = (attended events).step event :=
  Machine.run_concat _ _ _

theorem attended_registered (events : List AttachEvent) :
    (attended events).Registered := by
  have hinitial : JVMAttachService.initial.Registered := by
    intro id c hc
    cases hc
  exact Machine.run_invariant
    (fun (s : JVMAttachService) event (h : s.Registered) => h.step event)
    hinitial events

/-- The service with connections is the service without them. -/
theorem attended_service (events : List AttachEvent) :
    (attended events).service =
      serve (events.filterMap AttachEvent.remote) := by
  induction events using List.reverseRecOn with
  | nil => rfl
  | append_singleton events event ih =>
      rw [attended_concat, service_step (attended_registered events), ih,
        List.filterMap_append, serve, serve, Machine.run_append]
      cases event <;> rfl

end Plugin
end Franky
