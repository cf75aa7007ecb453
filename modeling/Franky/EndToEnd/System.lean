import Franky.EndToEnd.Handshake
import Franky.EndToEnd.LifeGraphs
import Franky.EndToEnd.LoadedAgent
import Franky.Plugin.TabActions

/-!
# The plugin and its agents

Tabs, connections and agents run side by side.  A tab writes its requests to the
channel of its session, an agent reads them when it likes, and the plugin reads
what the agents have sent when it likes.  Where each process is connected to
once, every tab drives its own agent, and what it shows is true of the process
that it has connected to.
-/

namespace Franky
namespace EndToEnd

open Foundation
open Foundation.Sorting (Qsort Contract)
open Protocol
open Agent
open Plugin

/-!
## The system

The tab, the connection and the agent of one process have the same number.
-/

/-- The attach service is known by what it has seen, and a channel by what was
written to it. -/
structure System where
  history : List AttachEvent
  tabs : Nat -> Option JvmTab
  agents : Nat -> Option LoadedAgent
  written : Nat -> List RequestType

inductive SystemEvent where
  | connect (id : Int32) (heap : Heap) (parent : Nat)
  | attach (c : Nat) (succeeds : Bool)
  | subscribe (c : Nat)
  | load (c : Nat) (process : Process) (names : JMethodId -> MethodName)
      (vm : VM)
  | read (k : Nat)
  | act (c : Nat) (action : TabAction)
  | sample (k : Nat) (outcome : Option AsgctCallTrace)
  | serve (k : Nat) (chunks : List (List UInt8))

namespace System

def initial : System :=
  { history := [], tabs := fun _ => none, agents := fun _ => none
    written := fun _ => [] }

def putTab (s : System) (c : Nat) (t : JvmTab) : System :=
  { s with tabs := Function.update s.tabs c (some t) }

def putAgent (s : System) (k : Nat) (agent : LoadedAgent) : System :=
  { s with agents := Function.update s.agents k (some agent) }

/-- The attach service goes on, and each connection that has emitted a session
calls the subscriber of its tab. -/
def attend (s : System) (event : AttachEvent) (onUi : Bool) : System :=
  { s with
    history := s.history ++ [event]
    tabs := fun c => (s.tabs c).map (fun t =>
      if ((attended (s.history ++ [event])).sessionChan c).isSome then
        t.step (TabEvent.sessionArrives onUi)
      else t) }

/-- The tab has the session of the instance that the message is published on. -/
def Publishes (s : System) (msg : Response) (c : Nat) : Prop :=
  (attended s.history).current msg.id ≠ none ∧
    (attended s.history).current msg.id =
      ((attended s.history).connections[c]?).bind Connection.session

instance (s : System) (msg : Response) (c : Nat) :
    Decidable (s.Publishes msg c) :=
  inferInstanceAs (Decidable (_ ∧ _))

/-- A result is published, which happens on the UI thread. -/
def publish (s : System) (msg : Response) : System :=
  { s with
    tabs := fun c => (s.tabs c).map (fun t =>
      if s.Publishes msg c then t.runUi (UiEvent.profilingResult msg) else t) }

/-- The tab acts, and what it sends is written to the channel of its session. -/
def act (s : System) (c : Nat) (t : JvmTab) (action : TabAction) : System :=
  let t' := t.step action.event
  { s.putTab c t' with
    written :=
      match (attended s.history).sessionChan c with
      | none => s.written
      | some k =>
          Function.update s.written k
            (s.written k ++ (requestsOf t').drop (requestsOf t).length) }

section Step

variable (qsort : Qsort maxCalltraces)
  (parse : List UInt8 -> Option RequestType)

/-- The next message of the agent that the plugin has not read. -/
def nextMessage (s : System) (k : Nat) : Option Response :=
  (s.agents k).bind (fun agent =>
    (agent.sent qsort parse)[(messagesFrom s.history k).length]?)

def step (s : System) : SystemEvent -> System
  | SystemEvent.connect id heap parent =>
      (s.attend (AttachEvent.connect id) true).putTab
        (connectIds s.history).length (JvmTab.init heap parent)
  | SystemEvent.attach c succeeds =>
      s.attend (AttachEvent.attach c succeeds) true
  | SystemEvent.subscribe c => s.attend (AttachEvent.subscribe c) false
  | SystemEvent.load c process names vm =>
      match (attended s.history).connections[c]?, s.agents c with
      | some conn, none =>
          if conn.attach = Attach.attached then
            s.putAgent c (LoadedAgent.load process conn.id names vm)
          else s
      | _, _ => s
  | SystemEvent.read k =>
      match s.nextMessage qsort parse k with
      | none => s
      | some msg =>
          let s' := s.attend (AttachEvent.read k msg) true
          match msg.type with
          | ResponseType.init => s'
          | ResponseType.profInfo => s'.publish msg
  | SystemEvent.act c action =>
      match s.tabs c with
      | none => s
      | some t => s.act c t action
  | SystemEvent.sample k outcome =>
      match s.agents k with
      | none => s
      | some agent =>
          if agent.running qsort parse then
            s.putAgent k (agent.sample outcome)
          else s
  | SystemEvent.serve k chunks =>
      match s.agents k with
      | none => s
      | some agent =>
          match (s.written k)[agent.served.length]? with
          | none => s
          | some type =>
              if Carries chunks type then
                s.putAgent k (agent.serve type chunks)
              else s

end Step

/-- Each process is connected to once, from a tab whose lifetime is nested in a
live one, and its agent has not been left running. -/
def Allows (s : System) : SystemEvent -> Prop
  | SystemEvent.connect id heap parent =>
      id ∉ connectIds s.history ∧ heap.Live parent ∧
        exists calls, Follows calls heap
  | SystemEvent.load _ process _ _ => process.profiler.running = false
  | _ => True

/-!
## What is kept
-/

def sentBy (qsort : Qsort maxCalltraces)
    (parse : List UInt8 -> Option RequestType) (s : System) (k : Nat) :
    List Response :=
  ((s.agents k).map (fun agent => agent.sent qsort parse)).getD []

def resultsFrom (history : List AttachEvent) (k : Nat) : List Response :=
  (messagesFrom history k).filter (fun msg => msg.type = ResponseType.profInfo)

/-- The agent runs in the process of its connection. -/
def OfConnection (history : List AttachEvent) (k : Nat) (agent : LoadedAgent) :
    Prop :=
  Returned k Attach.attached (attended history) ∧
    (connectIds history)[k]? = some agent.session.pid

structure Sound (qsort : Qsort maxCalltraces)
    (parse : List UInt8 -> Option RequestType)
    (received : Nat -> List Response) (s : System) : Prop where
  sends : Machine.AllSteps extend AgentSends [] s.history
  once : (connectIds s.history).Nodup
  opened : forall c t, s.tabs c = some t -> c < (connectIds s.history).length
  tabs : forall c t, s.tabs c = some t ->
    TabSound ((attended s.history).sessionChan c) (received c) t
  loaded : forall k agent, s.agents k = some agent ->
    agent.Driven ∧ OfConnection s.history k agent
  heard : forall k, messagesFrom s.history k <+: s.sentBy qsort parse k
  written : forall c, s.written c = ((s.tabs c).map requestsOf).getD []
  served : forall k agent, s.agents k = some agent ->
    agent.served <+: s.written k

end System

/-!
## Channels and sessions
-/

section Sessions

variable {history : List AttachEvent}

theorem agentSends_concat
    (h : Machine.AllSteps extend AgentSends [] history) {event : AttachEvent}
    (hevent : AgentSends history event) :
    Machine.AllSteps extend AgentSends [] (history ++ [event]) := by
  refine Machine.allSteps_append.mpr ⟨h, ?_, trivial⟩
  rw [run_extend]
  exact hevent

theorem System.OfConnection.concat {k : Nat} {agent : LoadedAgent}
    (h : System.OfConnection history k agent) (event : AttachEvent) :
    System.OfConnection (history ++ [event]) k agent :=
  ⟨Returned.append (by decide) h.left [event],
    getElem?_of_isPrefix (connectIds_mono (List.prefix_append _ _)) h.right⟩

/-- Where each process is connected to once, a session is on the channel of its
own agent. -/
theorem sessionChan_own (hagents : Machine.AllSteps extend AgentSends [] history)
    (hone : (connectIds history).Nodup) {c k : Nat}
    (hchan : (attended history).sessionChan c = some k) : k = c :=
  answers_own hagents (takesTurns_of_nodup hone)
    ((sessionChan_iff history c k).mp hchan).right

theorem sessionChan_connect (history : List AttachEvent) (id : Int32) :
    (attended (history ++ [AttachEvent.connect id])).sessionChan
      (connectIds history).length = none := by
  have hlength : (connectIds history).length =
      (attended history).connections.length := by
    rw [← (attended_attends history).ids, List.length_map]
  rw [attended_concat, hlength]
  simp [JVMAttachService.step, JVMAttachService.connect,
    JVMAttachService.sessionChan, Connection.start]

theorem current_iff_chan {k : Nat} {msg : Response}
    (htype : msg.type = ResponseType.profInfo)
    (hagents : Machine.AllSteps extend AgentSends []
      (history ++ [AttachEvent.read k msg]))
    (hone : (connectIds (history ++ [AttachEvent.read k msg])).Nodup) {i : Nat}
    {jvm : JVMRemoteInstance}
    (hjvm : (attended history).instances[i]? = some jvm) :
    (attended history).current msg.id = some i <-> jvm.chan = k := by
  have hbegin := List.prefix_append history [AttachEvent.read k msg]
  have hbefore := delivered_of_agents (hagents.of_prefix hbegin)
    (hone.sublist (connectIds_mono hbegin).sublist)
  have hafter := delivered_of_agents hagents hone
  have hservice := attended_service history
  change _ = serve (remotes history) at hservice
  rw [remotes_append] at hafter
  rw [← service_current, hservice]
  apply hbefore.current_iff htype hafter
  rw [← hservice]
  exact hjvm

theorem published_iff_chan {k : Nat} {msg : Response}
    (htype : msg.type = ResponseType.profInfo)
    (hagents : Machine.AllSteps extend AgentSends []
      (history ++ [AttachEvent.read k msg]))
    (hone : (connectIds (history ++ [AttachEvent.read k msg])).Nodup)
    (c : Nat) :
    ((attended (history ++ [AttachEvent.read k msg])).current msg.id ≠ none ∧
      (attended (history ++ [AttachEvent.read k msg])).current msg.id =
        ((attended (history ++ [AttachEvent.read k msg])).connections[c]?).bind
          Connection.session) <->
      (attended (history ++ [AttachEvent.read k msg])).sessionChan c =
        some k := by
  have hstep : attended (history ++ [AttachEvent.read k msg]) =
      (attended history).result msg.id msg := by
    rw [attended_concat]
    change (attended history).channelRead0 k msg = _
    rw [JVMAttachService.channelRead0, htype]
  have hiff := fun i jvm => @current_iff_chan history k msg htype hagents hone
    i jvm
  have hsound := attended_sound history
  rw [hstep]
  generalize attended history = before at hiff hsound
  rcases result_connections before msg.id msg with ⟨hconnections, hjvms⟩
  have hcurrent : (before.result msg.id msg).current msg.id =
      before.current msg.id := by
    unfold JVMAttachService.current
    rw [hconnections, hjvms]
  have hchan : (before.result msg.id msg).sessionChan c =
      before.sessionChan c := by
    unfold JVMAttachService.sessionChan
    rw [hconnections]
    simp only [result_chan]
  rw [hcurrent, hchan, hconnections]
  unfold JVMAttachService.sessionChan
  cases hconn : before.connections[c]? with
  | none => simp
  | some conn =>
      rw [Option.bind_some, Option.bind_some]
      constructor
      · intro h
        rcases h with ⟨hsome, hsame⟩
        rcases Option.ne_none_iff_exists'.mp hsome with ⟨i, hi⟩
        rw [hi] at hsame
        have hlt := (hsound c conn hconn).session_lt hsame.symm
        rw [← hsame, Option.bind_some, List.getElem?_eq_getElem hlt,
          Option.map_some, (hiff i _ (List.getElem?_eq_getElem hlt)).mp hi]
      · intro h
        rcases Option.bind_eq_some_iff.mp h with ⟨i, hsession, hmap⟩
        rcases Option.map_eq_some_iff.mp hmap with ⟨jvm, hjvm, hk⟩
        rw [(hiff i jvm hjvm).mpr hk, hsession]
        exact ⟨Option.some_ne_none i, rfl⟩

end Sessions

/-!
## One more event
-/

namespace System

section Sound

variable {qsort : Qsort maxCalltraces}
  {parse : List UInt8 -> Option RequestType}
  {received : Nat -> List Response} {s : System}

theorem tabSound_attend {history : List AttachEvent} {c : Nat}
    {results : List Response} {t : JvmTab}
    (h : TabSound ((attended history).sessionChan c) results t)
    (event : AttachEvent) (onUi : Bool) :
    TabSound ((attended (history ++ [event])).sessionChan c) results
      (if ((attended (history ++ [event])).sessionChan c).isSome then
        t.step (TabEvent.sessionArrives onUi)
      else t) := by
  cases hchan : (attended (history ++ [event])).sessionChan c with
  | none =>
      have hnone : (attended history).sessionChan c = none := by
        by_contra hsome
        rcases Option.ne_none_iff_exists'.mp hsome with ⟨k, hk⟩
        rw [sessionChan_concat hk event] at hchan
        cases hchan
      rw [hnone] at h
      exact h
  | some k => exact h.sessionArrives onUi k

theorem requestsOf_attend (s : System) (event : AttachEvent) (onUi : Bool)
    (c : Nat) :
    ((s.attend event onUi).tabs c).map requestsOf =
      (s.tabs c).map requestsOf := by
  unfold attend
  rw [Option.map_map]
  congr 1
  funext t
  change requestsOf (if _ then _ else _) = _
  split
  · exact (sameSession_sessionArrives t onUi).right.left
  · rfl

theorem Sound.attend (h : s.Sound qsort parse received) {event : AttachEvent}
    (hevent : AgentSends s.history event)
    (honce : (connectIds (s.history ++ [event])).Nodup)
    (hheard : forall k,
      messagesFrom (s.history ++ [event]) k <+: s.sentBy qsort parse k)
    (onUi : Bool) :
    (s.attend event onUi).Sound qsort parse received := by
  constructor
  · exact agentSends_concat h.sends hevent
  · exact honce
  · intro c t ht
    rcases Option.map_eq_some_iff.mp ht with ⟨old, hold, _⟩
    exact (h.opened c old hold).trans_le
      (connectIds_mono (List.prefix_append s.history [event])).length_le
  · intro c t ht
    rcases Option.map_eq_some_iff.mp ht with ⟨old, hold, rfl⟩
    exact tabSound_attend (h.tabs c old hold) event onUi
  · intro k agent hagent
    rcases h.loaded k agent hagent with ⟨hdriven, hplace⟩
    exact ⟨hdriven, hplace.concat event⟩
  · exact hheard
  · intro c
    rw [requestsOf_attend]
    exact h.written c
  · exact h.served

theorem Sound.attend_quiet (h : s.Sound qsort parse received)
    {event : AttachEvent} (hevent : AgentSends s.history event)
    (hids : connectIds [event] = [])
    (hquiet : forall k, messagesFrom [event] k = []) (onUi : Bool) :
    (s.attend event onUi).Sound qsort parse received := by
  apply h.attend hevent
  · rw [connectIds_append, hids, List.append_nil]
    exact h.once
  · intro k
    rw [messagesFrom_append, hquiet, List.append_nil]
    exact h.heard k

theorem update_eq_some {element : Type} {f : Nat -> Option element}
    {c c' : Nat} {x x' : element}
    (h : Function.update f c (some x) c' = some x') :
    (c' = c ∧ x' = x) ∨ (c' ≠ c ∧ f c' = some x') := by
  rcases eq_or_ne c' c with rfl | hne
  · rw [Function.update_self] at h
    exact Or.inl ⟨rfl, (Option.some.inj h).symm⟩
  · rw [Function.update_of_ne hne] at h
    exact Or.inr ⟨hne, h⟩

theorem putTab_self (s : System) (c : Nat) (t : JvmTab) :
    (s.putTab c t).tabs c = some t :=
  Function.update_self _ _ _

theorem putTab_of_ne (s : System) {c c' : Nat} (hne : c' ≠ c) (t : JvmTab) :
    (s.putTab c t).tabs c' = s.tabs c' :=
  Function.update_of_ne hne _ _

theorem Sound.messages_of_none (h : s.Sound qsort parse received) {k : Nat}
    (hnone : s.agents k = none) : messagesFrom s.history k = [] := by
  have hheard := h.heard k
  unfold sentBy at hheard
  rw [hnone] at hheard
  exact List.prefix_nil.mp hheard

theorem Sound.connect (h : s.Sound qsort parse received) {id : Int32}
    (hnew : id ∉ connectIds s.history) {calls : List Call} {heap : Heap}
    (hcalls : Follows calls heap) {parent : Nat} (hparent : heap.Live parent)
    (hreceived : received (connectIds s.history).length = []) :
    ((s.attend (AttachEvent.connect id) true).putTab
      (connectIds s.history).length (JvmTab.init heap parent)).Sound qsort
        parse received := by
  have hids : connectIds (s.history ++ [AttachEvent.connect id]) =
      connectIds s.history ++ [id] := connectIds_append _ _
  have hattended : (s.attend (AttachEvent.connect id) true).Sound qsort parse
      received := by
    have hquiet : AgentSends s.history (AttachEvent.connect id) := trivial
    apply h.attend hquiet
    · rw [hids]
      exact List.nodup_append.mpr ⟨h.once, List.nodup_singleton id,
        fun a ha b hb => by
          rw [List.mem_singleton.mp hb]
          exact ne_of_mem_of_not_mem ha hnew⟩
    · intro k
      rw [messagesFrom_append]
      change messagesFrom s.history k ++ [] <+: _
      rw [List.append_nil]
      exact h.heard k
  have hunopened : s.tabs (connectIds s.history).length = none := by
    by_contra hsome
    rcases Option.ne_none_iff_exists'.mp hsome with ⟨t, ht⟩
    exact Nat.lt_irrefl _ (h.opened _ t ht)
  have hinit := tabSound_init hcalls hparent
  rw [← sessionChan_connect s.history id, ← hreceived] at hinit
  refine ⟨hattended.sends, hattended.once, ?_, ?_, hattended.loaded,
    hattended.heard, ?_, hattended.served⟩
  · intro c t ht
    rcases update_eq_some ht with ⟨rfl, _⟩ | ⟨_, hold⟩
    · change _ < (connectIds (s.history ++ [AttachEvent.connect id])).length
      rw [hids, List.length_append]
      exact Nat.lt_succ_self _
    · exact hattended.opened c t hold
  · intro c t ht
    rcases update_eq_some ht with ⟨rfl, rfl⟩ | ⟨_, hold⟩
    · exact hinit
    · exact hattended.tabs c t hold
  · intro c
    rcases eq_or_ne c (connectIds s.history).length with rfl | hne
    · have hwritten := h.written (connectIds s.history).length
      rw [hunopened] at hwritten
      rw [putTab_self]
      exact hwritten
    · rw [putTab_of_ne _ hne]
      exact hattended.written c

/-!
## Agents
-/

theorem Sound.putAgent (h : s.Sound qsort parse received) {k : Nat}
    {agent : LoadedAgent} (hdriven : agent.Driven)
    (hplace : OfConnection s.history k agent)
    (hsent : s.sentBy qsort parse k <+: agent.sent qsort parse)
    (hserved : agent.served <+: s.written k) :
    (s.putAgent k agent).Sound qsort parse received := by
  refine ⟨h.sends, h.once, h.opened, h.tabs, ?_, ?_, h.written, ?_⟩
  · intro k' agent' hagent
    rcases update_eq_some hagent with ⟨rfl, rfl⟩ | ⟨_, hold⟩
    · exact ⟨hdriven, hplace⟩
    · exact h.loaded k' agent' hold
  · intro k'
    unfold sentBy System.putAgent
    dsimp only
    rcases eq_or_ne k' k with rfl | hne
    · rw [Function.update_self]
      exact (h.heard k').trans hsent
    · rw [Function.update_of_ne hne]
      exact h.heard k'
  · intro k' agent' hagent
    rcases update_eq_some hagent with ⟨rfl, rfl⟩ | ⟨_, hold⟩
    · exact hserved
    · exact h.served k' agent' hold

theorem sentBy_of_agent {k : Nat} {agent : LoadedAgent}
    (hagent : s.agents k = some agent) :
    s.sentBy qsort parse k = agent.sent qsort parse := by
  unfold sentBy
  rw [hagent]
  rfl

theorem Sound.load (h : s.Sound qsort parse received) {c : Nat}
    {conn : Connection} (hconn : (attended s.history).connections[c]? = some conn)
    (hattach : conn.attach = Attach.attached) (hnone : s.agents c = none)
    {process : Process} (hstopped : process.profiler.running = false)
    (names : JMethodId -> MethodName) (vm : VM) :
    (s.putAgent c (LoadedAgent.load process conn.id names vm)).Sound qsort
      parse received := by
  apply h.putAgent
  · exact LoadedAgent.load_driven hstopped conn.id names vm
  · exact ⟨⟨conn, hconn, hattach⟩, connection_id hconn⟩
  · unfold sentBy
    rw [hnone]
    exact List.nil_prefix
  · exact List.nil_prefix

theorem Sound.sample (h : s.Sound qsort parse received)
    (hqsort : Contract qsort) (hparse : ParsesRequests parse) {k : Nat}
    {agent : LoadedAgent} (hagent : s.agents k = some agent)
    (hrunning : agent.running qsort parse = true)
    (outcome : Option AsgctCallTrace) :
    (s.putAgent k (agent.sample outcome)).Sound qsort parse received := by
  rcases h.loaded k agent hagent with ⟨hdriven, hplace⟩
  have hnext := hdriven.sample hqsort hparse hrunning outcome
  apply h.putAgent hnext hplace
  · rw [sentBy_of_agent hagent, hdriven.sent_sample hparse outcome hnext]
  · exact h.served k agent hagent

theorem Sound.written_inTurn (h : s.Sound qsort parse received) (k : Nat) :
    exists running, InTurn false (s.written k) running := by
  rw [h.written k]
  cases htab : s.tabs k with
  | none => exact ⟨false, InTurn.nil false⟩
  | some t => exact ⟨_, requestsOf_inTurn (h.tabs k t htab).alternating⟩

theorem concat_isPrefix {element : Type} {xs ys : List element} {y : element}
    (h : xs <+: ys) (hnext : ys[xs.length]? = some y) : xs ++ [y] <+: ys := by
  rcases h with ⟨rest, rfl⟩
  rw [List.getElem?_append_right (Nat.le_refl _), Nat.sub_self] at hnext
  cases rest with
  | nil => cases hnext
  | cons x rest =>
      cases hnext
      exact ⟨rest, by rw [List.append_assoc]; rfl⟩

theorem Sound.serve (h : s.Sound qsort parse received)
    (hparse : ParsesRequests parse) {k : Nat} {agent : LoadedAgent}
    (hagent : s.agents k = some agent) {type : RequestType}
    (htype : (s.written k)[agent.served.length]? = some type)
    {chunks : List (List UInt8)} (hchunks : Carries chunks type) :
    (s.putAgent k (agent.serve type chunks)).Sound qsort parse received := by
  rcases h.loaded k agent hagent with ⟨hdriven, hplace⟩
  have hserved := concat_isPrefix (h.served k agent hagent) htype
  rcases h.written_inTurn k with ⟨running, hturn⟩
  rcases hserved with ⟨rest, hrest⟩
  rw [← hrest] at hturn
  rcases hturn.of_append with ⟨running', hturn'⟩
  have hnext := hdriven.serve hturn' hchunks
  apply h.putAgent hnext hplace
  · rw [sentBy_of_agent hagent]
    exact hdriven.sent_serve hparse hnext
  · exact ⟨rest, hrest⟩

/-!
## Messages
-/

theorem exists_of_nextMessage {k : Nat} {msg : Response}
    (hnext : s.nextMessage qsort parse k = some msg) :
    exists agent, s.agents k = some agent ∧
      (agent.sent qsort parse)[(messagesFrom s.history k).length]? =
        some msg :=
  Option.bind_eq_some_iff.mp hnext

theorem Sound.attend_read (h : s.Sound qsort parse received)
    (hparse : ParsesRequests parse) {k : Nat} {agent : LoadedAgent}
    (hagent : s.agents k = some agent) {msg : Response}
    (hmsg : (agent.sent qsort parse)[(messagesFrom s.history k).length]? =
      some msg) :
    (s.attend (AttachEvent.read k msg) true).Sound qsort parse received := by
  rcases h.loaded k agent hagent with ⟨hdriven, ⟨conn, hconn, hattach⟩, hid⟩
  have hheard := h.heard k
  rw [sentBy_of_agent hagent] at hheard
  have hlater := concat_isPrefix hheard hmsg
  apply h.attend
  · refine ⟨conn, hconn, hattach, ?_⟩
    rw [connection_id hconn, Option.some.injEq] at hid
    rw [hid, List.prefix_iff_eq_take.mp hlater, List.length_append]
    exact introduced_take (hdriven.introduced qsort hparse) _
  · rw [connectIds_append]
    exact (List.append_nil (connectIds s.history)).symm ▸ h.once
  · intro k'
    rcases eq_or_ne k' k with rfl | hne
    · rw [messagesFrom_read, sentBy_of_agent hagent]
      exact hlater
    · have hquiet : messagesFrom [AttachEvent.read k msg] k' = [] := by
        simp [messagesFrom, hne.symm]
      rw [messagesFrom_append, hquiet, List.append_nil]
      exact h.heard k'

theorem stopReports_nil (samples : Nat -> List (Option AsgctCallTrace))
    (n : Nat) : stopReports samples n [] = [] := rfl

theorem Sound.sessionChan_of_result (h : s.Sound qsort parse received)
    (hqsort : Contract qsort) (hparse : ParsesRequests parse) {k : Nat}
    {agent : LoadedAgent} (hagent : s.agents k = some agent) {msg : Response}
    (hmem : msg ∈ agent.sent qsort parse)
    (htype : msg.type = ResponseType.profInfo) :
    (attended s.history).sessionChan k = some k := by
  have hdriven := (h.loaded k agent hagent).left
  have hresults : results (agent.sent qsort parse) ≠ [] := by
    rcases hdriven.introduced qsort hparse with ⟨rest, hsent, hrest⟩
    rw [hsent] at hmem
    rcases List.mem_cons.mp hmem with rfl | hmem
    · cases htype
    · rcases (hrest msg hmem).right.right with ⟨info, hinfo⟩
      rw [hsent]
      exact List.ne_nil_of_mem (List.mem_filterMap.mpr
        ⟨msg, List.mem_cons_of_mem _ hmem, hinfo⟩)
  have hserved : agent.served ≠ [] := by
    rcases hdriven.turn with ⟨running, hturn⟩
    intro hnil
    have hreports := (hdriven.answers hqsort hparse hturn).right
    rw [hnil, stopReports_nil] at hreports
    exact hresults (List.forall₂_nil_left_iff.mp hreports)
  have hwritten : s.written k ≠ [] := by
    intro hnil
    have hbegin := h.served k agent hagent
    rw [hnil] at hbegin
    exact hserved (List.prefix_nil.mp hbegin)
  rw [h.written k] at hwritten
  cases htab : s.tabs k with
  | none =>
      rw [htab] at hwritten
      exact absurd rfl hwritten
  | some t =>
      have hsession : t.session ≠ none := by
        intro hnone
        rw [htab, Option.map_some, Option.getD_some, requestsOf, hnone]
          at hwritten
        exact hwritten rfl
      rcases Option.ne_none_iff_exists'.mp
        ((h.tabs k t htab).arrived.mp hsession) with ⟨k', hchan⟩
      rw [hchan, sessionChan_own h.sends h.once hchan]

/-- A result that has been read is received by the tab of its agent, and by no
other tab. -/
theorem Sound.publish (h : s.Sound qsort parse received)
    {history : List AttachEvent} {k : Nat} {msg : Response}
    (hhistory : s.history = history ++ [AttachEvent.read k msg])
    (htype : msg.type = ResponseType.profInfo)
    (hchan : (attended s.history).sessionChan k = some k) :
    (s.publish msg).Sound qsort parse
      (Function.update received k (received k ++ [msg])) := by
  have hpublishes : forall c,
      s.Publishes msg c <-> (attended s.history).sessionChan c = some k := by
    have hsends := h.sends
    have honce := h.once
    unfold Publishes
    rw [hhistory] at hsends honce ⊢
    exact published_iff_chan htype hsends honce
  refine ⟨h.sends, h.once, ?_, ?_, h.loaded, h.heard, ?_, h.served⟩
  · intro c t ht
    rcases Option.map_eq_some_iff.mp ht with ⟨old, hold, _⟩
    exact h.opened c old hold
  · intro c t ht
    rcases Option.map_eq_some_iff.mp ht with ⟨old, hold, rfl⟩
    have htab := h.tabs c old hold
    rcases eq_or_ne c k with rfl | hne
    · rw [if_pos ((hpublishes c).mpr hchan), Function.update_self]
      exact htab.receives (by rw [hchan]; exact Option.some_ne_none c) msg
    · have hother : Not (s.Publishes msg c) := by
        intro hpublished
        have hsame := (hpublishes c).mp hpublished
        exact hne (sessionChan_own h.sends h.once hsame).symm
      rw [if_neg hother, Function.update_of_ne hne]
      exact htab
  · intro c
    change s.written c = _
    rw [h.written c]
    unfold System.publish
    rw [Option.map_map]
    congr 2
    funext t
    change requestsOf t = requestsOf (if _ then _ else _)
    split
    · unfold requestsOf
      rw [(published_sameControls t msg).session]
    · rfl

/-!
## Actions
-/

/-- What a tab sends is written to the channel of its agent. -/
theorem Sound.act_written (h : s.Sound qsort parse received) {c : Nat}
    {t : JvmTab} (htab : s.tabs c = some t) (action : TabAction) :
    (s.act c t action).written =
      Function.update s.written c (requestsOf (t.step action.event)) := by
  have hsound := h.tabs c t htab
  have hsame := sameSession_action hsound.pending action
  have hwritten : s.written c = requestsOf t := by
    rw [h.written c, htab]
    rfl
  unfold System.act
  dsimp only
  cases hchan : (attended s.history).sessionChan c with
  | none =>
      have hnone : t.session = none := by
        by_contra hsome
        exact hsound.arrived.mp hsome hchan
      have hnil : requestsOf (t.step action.event) = requestsOf t := by
        unfold requestsOf
        rw [hsame.session.mpr hnone, hnone]
      rw [hnil, ← hwritten]
      exact (Function.update_eq_self c s.written).symm
  | some k =>
      have hown := sessionChan_own h.sends h.once hchan
      subst hown
      dsimp only
      rw [hwritten, List.prefix_iff_eq_append.mp hsame.requests]

theorem Sound.act (h : s.Sound qsort parse received) {c : Nat} {t : JvmTab}
    (htab : s.tabs c = some t) (action : TabAction) :
    (s.act c t action).Sound qsort parse received := by
  have hsound := h.tabs c t htab
  have hwritten := h.act_written htab action
  refine ⟨h.sends, h.once, ?_, ?_, h.loaded, h.heard, ?_, ?_⟩
  · intro c' t' ht'
    rcases update_eq_some ht' with ⟨rfl, _⟩ | ⟨_, hold⟩
    · exact h.opened c' t htab
    · exact h.opened c' t' hold
  · intro c' t' ht'
    rcases update_eq_some ht' with ⟨rfl, rfl⟩ | ⟨_, hold⟩
    · exact hsound.action action
    · exact h.tabs c' t' hold
  · intro c'
    rw [hwritten]
    change _ = (((s.putTab c (t.step action.event)).tabs c').map
      requestsOf).getD []
    rcases eq_or_ne c' c with rfl | hne
    · rw [Function.update_self, putTab_self]
      rfl
    · rw [Function.update_of_ne hne, putTab_of_ne _ hne]
      exact h.written c'
  · intro k agent hagent
    have hserved := h.served k agent hagent
    rw [hwritten]
    rcases eq_or_ne k c with rfl | hne
    · rw [Function.update_self]
      rw [h.written k, htab] at hserved
      exact hserved.trans (sameSession_action hsound.pending action).requests
    · rw [Function.update_of_ne hne]
      exact hserved

end Sound

end System

end EndToEnd
end Franky
