import Mathlib.Data.List.Nodup
import Mathlib.Logic.Function.Basic
import Franky.Foundation.Machine
import Franky.Protocol

/-!
# Routing responses to sessions

The plugin keeps one subject for each process it connects to.  The INIT message
of an agent completes the subject with an instance for the agent's channel, and
a result is published on the instance that the subject of its process holds
then.  All of this happens on the UI thread, one event at a time.
-/

namespace Franky
namespace Plugin

open Foundation
open Protocol

/-!
## The service
-/

/-- `AsyncSubject`: its value is the last one it was given. -/
structure AsyncSubject (element : Type) where
  value : Option element
  completed : Bool
deriving DecidableEq, Repr

namespace AsyncSubject

variable {element : Type}

def fresh : AsyncSubject element := { value := none, completed := false }

def onNext (subject : AsyncSubject element) (x : element) :
    AsyncSubject element :=
  { subject with value := some x }

def onCompleted (subject : AsyncSubject element) : AsyncSubject element :=
  { subject with completed := true }

end AsyncSubject

/-- `JVMRemoteInstance`, with what was published on its response subject. -/
structure JVMRemoteInstance where
  chan : Nat
  response : List Response
deriving DecidableEq, Repr

/-- `JVMRemoteService`.  An instance is known by the number of its creation, and
a channel by a number as well. -/
structure JVMRemoteService where
  jvms : Int32 -> Option (AsyncSubject Nat)
  instances : List JVMRemoteInstance

namespace JVMRemoteService

def initial : JVMRemoteService := { jvms := fun _ => none, instances := [] }

/-- `JVMRemoteService.init`. -/
def init (s : JVMRemoteService) (id : Int32) : JVMRemoteService :=
  { s with jvms := Function.update s.jvms id (some AsyncSubject.fresh) }

/-- `JVMRemoteService.setChan`, which throws where there is no subject. -/
def setChan (s : JVMRemoteService) (id : Int32) (channel : Nat) :
    Option JVMRemoteService :=
  match s.jvms id with
  | none => none
  | some subject =>
      some
        { jvms := Function.update s.jvms id
            (some (subject.onNext s.instances.length).onCompleted)
          instances := s.instances ++ [{ chan := channel, response := [] }] }

/-- `response.onNext` of an instance. -/
def publish (s : JVMRemoteService) (i : Nat) (msg : Response) :
    JVMRemoteService :=
  { s with
    instances := s.instances.modify i
      (fun jvm => { jvm with response := jvm.response ++ [msg] }) }

/-- `jvms[id]?.value`. -/
def current (s : JVMRemoteService) (id : Int32) : Option Nat :=
  (s.jvms id).bind AsyncSubject.value

/-- `JVMRemoteService.result`. -/
def result (s : JVMRemoteService) (id : Int32) (msg : Response) :
    JVMRemoteService :=
  match s.current id with
  | none => s
  | some i => s.publish i msg

/-- `channelRead0`; an exception leaves the service as it is. -/
def channelRead0 (s : JVMRemoteService) (channel : Nat) (msg : Response) :
    JVMRemoteService :=
  match msg.type with
  | ResponseType.init => (s.setChan msg.id channel).getD s
  | ResponseType.profInfo => s.result msg.id msg

end JVMRemoteService

/-!
## Histories
-/

/-- What happens on the UI thread: a tab connects to a process, or a message is
read from a channel. -/
inductive RemoteEvent where
  | connect (id : Int32)
  | read (channel : Nat) (msg : Response)
deriving DecidableEq, Repr

def JVMRemoteService.step (s : JVMRemoteService) :
    RemoteEvent -> JVMRemoteService
  | RemoteEvent.connect id => s.init id
  | RemoteEvent.read channel msg => s.channelRead0 channel msg

def serve (history : List RemoteEvent) : JVMRemoteService :=
  Machine.run JVMRemoteService.step JVMRemoteService.initial history

def remember (history : List RemoteEvent) (event : RemoteEvent) :
    List RemoteEvent :=
  history ++ [event]

def received (history : List RemoteEvent) (channel : Nat) : List Response :=
  history.filterMap (fun event =>
    match event with
    | RemoteEvent.connect _ => none
    | RemoteEvent.read channel' msg =>
        if channel' = channel ∧ msg.type = ResponseType.profInfo then some msg
        else none)

/-- Each instance has published the results of its own channel and no others, and
no channel's results are lost. -/
structure Delivered (history : List RemoteEvent) : Prop where
  published : forall jvm, jvm ∈ (serve history).instances ->
    jvm.response = received history jvm.chan
  owned : forall channel, received history channel ≠ [] ->
    exists jvm, jvm ∈ (serve history).instances ∧ jvm.chan = channel

/-- An instance was built for the channel of an agent of this process. -/
def Initialised (history : List RemoteEvent) (channel : Nat) (id : Int32) :
    Prop :=
  exists earlier msg, earlier ++ [RemoteEvent.read channel msg] <+: history ∧
    msg.type = ResponseType.init ∧ msg.id = id ∧
      RemoteEvent.connect id ∈ earlier

/-- An agent sends one INIT message, before anything else, and its results only
over a channel that is initialised. -/
def Allowed (history : List RemoteEvent) : RemoteEvent -> Prop
  | RemoteEvent.connect _ => True
  | RemoteEvent.read channel msg =>
      match msg.type with
      | ResponseType.init =>
          forall msg', RemoteEvent.read channel msg' ∉ history
      | ResponseType.profInfo => Initialised history channel msg.id

/-- The event replaces what the service knows about the process. -/
def RemoteEvent.registers (id : Int32) : RemoteEvent -> Bool
  | connect id' => id' = id
  | read _ msg => msg.type = ResponseType.init ∧ msg.id = id

def lastRegistration (id : Int32) (history : List RemoteEvent) :
    Option RemoteEvent :=
  (history.filter (RemoteEvent.registers id)).getLast?

/-- A result arrives while the INIT message of its channel is the last event
that registered its process. -/
def Undisturbed (history : List RemoteEvent) : RemoteEvent -> Prop
  | RemoteEvent.connect _ => True
  | RemoteEvent.read channel msg =>
      msg.type = ResponseType.profInfo ->
        exists msg', lastRegistration msg.id history =
          some (RemoteEvent.read channel msg')

/-!
## One more event
-/

variable {history : List RemoteEvent} {event : RemoteEvent}

theorem serve_remember (history : List RemoteEvent) (event : RemoteEvent) :
    serve (remember history event) = (serve history).step event :=
  Machine.run_concat _ _ _

theorem lastRegistration_remember (id : Int32) (history : List RemoteEvent)
    (event : RemoteEvent) :
    lastRegistration id (remember history event) =
      if event.registers id then some event
      else lastRegistration id history := by
  unfold lastRegistration remember
  rw [List.filter_append]
  split
  · rename_i h
    simp [h]
  · rename_i h
    simp [h]

theorem Initialised.of_remember {channel : Nat} {id : Int32}
    (h : Initialised (remember history event) channel id) :
    Initialised history channel id ∨
      exists msg, event = RemoteEvent.read channel msg ∧
        msg.type = ResponseType.init ∧ msg.id = id ∧
          RemoteEvent.connect id ∈ history := by
  rcases h with ⟨earlier, msg, hpre, htype, hid, hconnect⟩
  rcases List.prefix_concat_iff.mp hpre with hwhole | hpre
  · right
    rcases List.append_inj' hwhole rfl with ⟨rfl, hlast⟩
    exact ⟨msg, (List.singleton_inj.mp hlast).symm, htype, hid, hconnect⟩
  · left
    exact ⟨earlier, msg, hpre, htype, hid, hconnect⟩

theorem received_remember_connect (history : List RemoteEvent) (id : Int32)
    (channel : Nat) :
    received (remember history (RemoteEvent.connect id)) channel =
      received history channel := by
  simp [received, remember]

theorem received_remember_init {msg : Response}
    (htype : msg.type = ResponseType.init) (history : List RemoteEvent)
    (channel channel' : Nat) :
    received (remember history (RemoteEvent.read channel msg)) channel' =
      received history channel' := by
  simp [received, remember, htype]

theorem received_remember_profInfo {msg : Response}
    (htype : msg.type = ResponseType.profInfo) (history : List RemoteEvent)
    (channel channel' : Nat) :
    received (remember history (RemoteEvent.read channel msg)) channel' =
      received history channel' ++ if channel = channel' then [msg] else [] := by
  by_cases h : channel = channel' <;> simp [received, remember, htype, h]

theorem lastRegistration_remember_init {msg : Response}
    (htype : msg.type = ResponseType.init) (id : Int32)
    (history : List RemoteEvent) (channel : Nat) :
    lastRegistration id (remember history (RemoteEvent.read channel msg)) =
      if msg.id = id then some (RemoteEvent.read channel msg)
      else lastRegistration id history := by
  rw [lastRegistration_remember]
  simp [RemoteEvent.registers, htype]

theorem connect_mem_of_remember_read {id : Int32} {channel : Nat}
    {msg : Response} (h : RemoteEvent.connect id ∈
      remember history (RemoteEvent.read channel msg)) :
    RemoteEvent.connect id ∈ history := by
  simpa [remember] using h

theorem received_eq_nil {channel : Nat}
    (h : forall msg, RemoteEvent.read channel msg ∉ history) :
    received history channel = [] := by
  rw [received, List.filterMap_eq_nil_iff]
  intro event hmem
  cases event with
  | connect id => rfl
  | read channel' msg =>
      apply if_neg
      intro hboth
      rcases hboth with ⟨rfl, _⟩
      exact h msg hmem

/-!
## What the service knows
-/

def JVMRemoteService.chans (s : JVMRemoteService) : List Nat :=
  s.instances.map JVMRemoteInstance.chan

theorem result_instances (s : JVMRemoteService) (id : Int32) (msg : Response)
    (j : Nat) :
    (s.result id msg).instances[j]? =
      (s.instances[j]?).map (fun jvm =>
        if s.current id = some j then
          { jvm with response := jvm.response ++ [msg] }
        else jvm) := by
  unfold JVMRemoteService.result
  cases hcurrent : s.current id with
  | none => simp
  | some i => simp [JVMRemoteService.publish, List.getElem?_modify]

theorem result_chans (s : JVMRemoteService) (id : Int32) (msg : Response) :
    (s.result id msg).chans = s.chans := by
  apply List.ext_getElem?
  intro j
  simp only [JVMRemoteService.chans, List.getElem?_map, result_instances]
  cases s.instances[j]? with
  | none => rfl
  | some jvm => by_cases h : s.current id = some j <;> simp [h]

/-- The subject of a process holds the instance of the channel whose INIT
message registered it last. -/
structure Tracks (history : List RemoteEvent) (s : JVMRemoteService) :
    Prop where
  known : forall id, RemoteEvent.connect id ∈ history -> s.jvms id ≠ none
  value : forall id i, s.current id = some i ->
    exists channel msg, s.chans[i]? = some channel ∧
      lastRegistration id history = some (RemoteEvent.read channel msg)
  registered : forall id channel msg, RemoteEvent.connect id ∈ history ->
    lastRegistration id history = some (RemoteEvent.read channel msg) ->
      exists i, s.current id = some i
  distinct : s.chans.Nodup
  initialised : forall channel id, Initialised history channel id ->
    channel ∈ s.chans
  heard : forall channel, channel ∈ s.chans ->
    exists msg, RemoteEvent.read channel msg ∈ history

theorem tracks_initial : Tracks [] JVMRemoteService.initial := by
  constructor
  · intro id hconnect
    cases hconnect
  · intro id i hi
    cases hi
  · intro id channel msg hconnect _
    cases hconnect
  · exact List.nodup_nil
  · intro channel id h
    rcases h with ⟨earlier, msg, hpre, _⟩
    simp at hpre
  · intro channel hchannel
    cases hchannel

namespace Tracks

variable {s : JVMRemoteService}

theorem connect (h : Tracks history s) (id : Int32) :
    Tracks (remember history (RemoteEvent.connect id)) (s.init id) := by
  have hcurrent : forall id', (s.init id).current id' =
      if id' = id then none else s.current id' := by
    intro id'
    rcases eq_or_ne id' id with rfl | hne
    · simp [JVMRemoteService.current, JVMRemoteService.init,
        AsyncSubject.fresh]
    · simp [JVMRemoteService.current, JVMRemoteService.init, hne]
  have hlast : forall id', lastRegistration id'
      (remember history (RemoteEvent.connect id)) =
        if id = id' then some (RemoteEvent.connect id)
        else lastRegistration id' history := by
    intro id'
    rw [lastRegistration_remember]
    simp [RemoteEvent.registers]
  constructor
  · intro id' hconnect
    rcases eq_or_ne id' id with rfl | hne
    · simp [JVMRemoteService.init]
    · have hold : RemoteEvent.connect id' ∈ history := by
        simpa [remember, hne] using hconnect
      simpa [JVMRemoteService.init, hne] using h.known id' hold
  · intro id' i hi
    rw [hcurrent] at hi
    rcases eq_or_ne id' id with rfl | hne
    · simp at hi
    · rw [if_neg hne] at hi
      rw [hlast, if_neg hne.symm]
      exact h.value id' i hi
  · intro id' channel msg hconnect hregistered
    rw [hlast] at hregistered
    rcases eq_or_ne id' id with rfl | hne
    · simp at hregistered
    · rw [if_neg hne.symm] at hregistered
      rw [hcurrent, if_neg hne]
      apply h.registered id' channel msg _ hregistered
      simpa [remember, hne] using hconnect
  · exact h.distinct
  · intro channel id' hinit
    rcases hinit.of_remember with hinit | ⟨msg, hevent, _⟩
    · exact h.initialised channel id' hinit
    · cases hevent
  · intro channel hchannel
    rcases h.heard channel hchannel with ⟨msg, hmsg⟩
    exact ⟨msg, List.mem_append_left _ hmsg⟩

theorem init_unknown (h : Tracks history s) {channel : Nat} {msg : Response}
    (htype : msg.type = ResponseType.init) (hsubject : s.jvms msg.id = none) :
    Tracks (remember history (RemoteEvent.read channel msg))
      (s.channelRead0 channel msg) := by
  have hunknown : RemoteEvent.connect msg.id ∉ history :=
    fun hmem => h.known msg.id hmem hsubject
  have hsame : s.channelRead0 channel msg = s := by
    simp [JVMRemoteService.channelRead0, JVMRemoteService.setChan, htype,
      hsubject]
  rw [hsame]
  constructor
  · exact fun id hmem => h.known id (connect_mem_of_remember_read hmem)
  · intro id i hi
    rw [lastRegistration_remember_init htype, if_neg]
    · exact h.value id i hi
    · rintro rfl
      simp [JVMRemoteService.current, hsubject] at hi
  · intro id channel' msg' hmem hregistered
    have hconnect := connect_mem_of_remember_read hmem
    have hne : msg.id ≠ id := by
      rintro rfl
      exact hunknown hconnect
    rw [lastRegistration_remember_init htype, if_neg hne] at hregistered
    exact h.registered id channel' msg' hconnect hregistered
  · exact h.distinct
  · intro channel' id hinit
    rcases hinit.of_remember with hinit | ⟨msg', hevent, _, hid, hmem⟩
    · exact h.initialised channel' id hinit
    · cases hevent
      rw [← hid] at hmem
      exact absurd hmem hunknown
  · intro channel' hchannel
    rcases h.heard channel' hchannel with ⟨msg', hmsg⟩
    exact ⟨msg', List.mem_append_left _ hmsg⟩

theorem channelRead0_init {channel : Nat}
    {msg : Response} (htype : msg.type = ResponseType.init)
    {subject : AsyncSubject Nat} (hsubject : s.jvms msg.id = some subject) :
    s.channelRead0 channel msg =
      { jvms := Function.update s.jvms msg.id
          (some (subject.onNext s.instances.length).onCompleted)
        instances := s.instances ++ [{ chan := channel, response := [] }] } := by
  simp [JVMRemoteService.channelRead0, JVMRemoteService.setChan, htype,
    hsubject]

theorem chans_init {channel : Nat} {msg : Response}
    (htype : msg.type = ResponseType.init) {subject : AsyncSubject Nat}
    (hsubject : s.jvms msg.id = some subject) :
    (s.channelRead0 channel msg).chans = s.chans ++ [channel] := by
  simp [channelRead0_init htype hsubject, JVMRemoteService.chans]

theorem current_init {channel : Nat} {msg : Response}
    (htype : msg.type = ResponseType.init) {subject : AsyncSubject Nat}
    (hsubject : s.jvms msg.id = some subject) (id : Int32) :
    (s.channelRead0 channel msg).current id =
      if msg.id = id then some s.chans.length else s.current id := by
  rw [channelRead0_init htype hsubject]
  rcases eq_or_ne msg.id id with rfl | hne
  · simp [JVMRemoteService.current, AsyncSubject.onNext,
      AsyncSubject.onCompleted, JVMRemoteService.chans]
  · simp [JVMRemoteService.current, hne, hne.symm]

theorem init_known (h : Tracks history s) {channel : Nat} {msg : Response}
    (htype : msg.type = ResponseType.init)
    (hnew : forall msg', RemoteEvent.read channel msg' ∉ history)
    {subject : AsyncSubject Nat} (hsubject : s.jvms msg.id = some subject) :
    Tracks (remember history (RemoteEvent.read channel msg))
      (s.channelRead0 channel msg) where
  known := by
    intro id hmem
    rw [channelRead0_init htype hsubject]
    rcases eq_or_ne msg.id id with rfl | hne
    · simp
    · simpa [hne.symm] using h.known id (connect_mem_of_remember_read hmem)
  value := by
    intro id i hi
    rw [current_init htype hsubject] at hi
    rw [lastRegistration_remember_init htype, chans_init htype hsubject]
    rcases eq_or_ne msg.id id with rfl | hne
    · rw [if_pos rfl, Option.some.injEq] at hi
      rw [if_pos rfl, ← hi]
      exact ⟨channel, msg, List.getElem?_concat_length, rfl⟩
    · rw [if_neg hne] at hi
      rw [if_neg hne]
      rcases h.value id i hi with ⟨channel', msg', hchan, hregistered⟩
      refine ⟨channel', msg', ?_, hregistered⟩
      rw [List.getElem?_append_left (List.getElem?_eq_some_iff.mp hchan).1]
      exact hchan
  registered := by
    intro id channel' msg' hmem hregistered
    rw [lastRegistration_remember_init htype] at hregistered
    rw [current_init htype hsubject]
    rcases eq_or_ne msg.id id with rfl | hne
    · exact ⟨_, if_pos rfl⟩
    · rw [if_neg hne] at hregistered
      rw [if_neg hne]
      exact h.registered id channel' msg' (connect_mem_of_remember_read hmem)
        hregistered
  distinct := by
    rw [chans_init htype hsubject, ← List.concat_eq_append]
    apply List.Nodup.concat _ h.distinct
    intro hmem
    rcases h.heard channel hmem with ⟨msg', hmsg⟩
    exact hnew msg' hmsg
  initialised := by
    intro channel' id hinit
    rw [chans_init htype hsubject]
    rcases hinit.of_remember with hinit | ⟨msg', hevent, _⟩
    · exact List.mem_append_left _ (h.initialised channel' id hinit)
    · cases hevent
      exact List.mem_append_right _ List.mem_cons_self
  heard := by
    intro channel' hchannel
    rw [chans_init htype hsubject] at hchannel
    rcases List.mem_append.mp hchannel with hold | hlast
    · rcases h.heard channel' hold with ⟨msg', hmsg⟩
      exact ⟨msg', List.mem_append_left _ hmsg⟩
    · rw [List.mem_singleton.mp hlast]
      exact ⟨msg, List.mem_append_right _ List.mem_cons_self⟩

theorem profInfo (h : Tracks history s) {channel : Nat} {msg : Response}
    (htype : msg.type = ResponseType.profInfo) :
    Tracks (remember history (RemoteEvent.read channel msg))
      (s.channelRead0 channel msg) := by
  have hread : s.channelRead0 channel msg = s.result msg.id msg := by
    simp [JVMRemoteService.channelRead0, htype]
  have hjvms : (s.result msg.id msg).jvms = s.jvms := by
    unfold JVMRemoteService.result
    split <;> rfl
  have hchans := result_chans s msg.id msg
  have hlast : forall id, lastRegistration id
      (remember history (RemoteEvent.read channel msg)) =
        lastRegistration id history := by
    intro id
    rw [lastRegistration_remember]
    simp [RemoteEvent.registers, htype]
  rw [hread]
  constructor
  · intro id hmem
    rw [hjvms]
    exact h.known id (connect_mem_of_remember_read hmem)
  · intro id i hi
    rw [JVMRemoteService.current, hjvms] at hi
    rw [hlast, hchans]
    exact h.value id i hi
  · intro id channel' msg' hmem hregistered
    rw [hlast] at hregistered
    rw [JVMRemoteService.current, hjvms]
    exact h.registered id channel' msg' (connect_mem_of_remember_read hmem)
      hregistered
  · rw [hchans]
    exact h.distinct
  · intro channel' id hinit
    rw [hchans]
    rcases hinit.of_remember with hinit | ⟨msg', hevent, hinit, _⟩
    · exact h.initialised channel' id hinit
    · cases hevent
      rw [htype] at hinit
      cases hinit
  · intro channel' hchannel
    rw [hchans] at hchannel
    rcases h.heard channel' hchannel with ⟨msg', hmsg⟩
    exact ⟨msg', List.mem_append_left _ hmsg⟩

theorem step (h : Tracks history s) (hallowed : Allowed history event) :
    Tracks (remember history event) (s.step event) := by
  cases event with
  | connect id => exact h.connect id
  | read channel msg =>
      cases htype : msg.type with
      | init =>
          have hnew : forall msg', RemoteEvent.read channel msg' ∉ history := by
            simpa [Allowed, htype] using hallowed
          cases hsubject : s.jvms msg.id with
          | none => exact h.init_unknown htype hsubject
          | some subject => exact h.init_known htype hnew hsubject
      | profInfo => exact h.profInfo htype

end Tracks

/-!
## Delivery
-/

theorem Delivered.connect (h : Delivered history) (id : Int32) :
    Delivered (remember history (RemoteEvent.connect id)) := by
  have hserve : (serve (remember history (RemoteEvent.connect id))).instances =
      (serve history).instances := by
    rw [serve_remember]
    rfl
  constructor
  · intro jvm hjvm
    rw [hserve] at hjvm
    rw [received_remember_connect]
    exact h.published jvm hjvm
  · intro channel hreceived
    rw [received_remember_connect] at hreceived
    rw [hserve]
    exact h.owned channel hreceived

theorem channelRead0_init_instances (s : JVMRemoteService) (channel : Nat)
    {msg : Response} (htype : msg.type = ResponseType.init) :
    (s.channelRead0 channel msg).instances = s.instances ∨
      (s.channelRead0 channel msg).instances =
        s.instances ++ [{ chan := channel, response := [] }] := by
  unfold JVMRemoteService.channelRead0 JVMRemoteService.setChan
  rw [htype]
  cases s.jvms msg.id with
  | none => exact Or.inl rfl
  | some subject => exact Or.inr rfl

theorem Delivered.init (h : Delivered history) {channel : Nat} {msg : Response}
    (htype : msg.type = ResponseType.init)
    (hnew : forall msg', RemoteEvent.read channel msg' ∉ history) :
    Delivered (remember history (RemoteEvent.read channel msg)) := by
  have hinstances := channelRead0_init_instances (serve history) channel htype
  constructor
  · intro jvm hjvm
    rw [serve_remember, JVMRemoteService.step] at hjvm
    rw [received_remember_init htype]
    rcases hinstances with hsame | hgrown
    · rw [hsame] at hjvm
      exact h.published jvm hjvm
    · rw [hgrown] at hjvm
      rcases List.mem_append.mp hjvm with hold | hlast
      · exact h.published jvm hold
      · rw [List.mem_singleton.mp hlast]
        exact (received_eq_nil hnew).symm
  · intro channel' hreceived
    rw [received_remember_init htype] at hreceived
    rcases h.owned channel' hreceived with ⟨jvm, hjvm, hchan⟩
    refine ⟨jvm, ?_, hchan⟩
    rw [serve_remember, JVMRemoteService.step]
    rcases hinstances with hsame | hgrown
    · rw [hsame]
      exact hjvm
    · rw [hgrown]
      exact List.mem_append_left _ hjvm

theorem serve_remember_profInfo {channel : Nat} {msg : Response}
    (htype : msg.type = ResponseType.profInfo) :
    serve (remember history (RemoteEvent.read channel msg)) =
      (serve history).result msg.id msg := by
  rw [serve_remember]
  simp [JVMRemoteService.step, JVMRemoteService.channelRead0, htype]

theorem chans_getElem? {s : JVMRemoteService} {i channel : Nat} :
    s.chans[i]? = some channel <->
      exists jvm, s.instances[i]? = some jvm ∧ jvm.chan = channel := by
  simp [JVMRemoteService.chans]

/-- A result is delivered when its process holds the instance of its
channel. -/
theorem Delivered.profInfo (h : Delivered history)
    (htracks : Tracks history (serve history)) {channel i : Nat}
    {msg : Response} (htype : msg.type = ResponseType.profInfo)
    (hcurrent : (serve history).current msg.id = some i)
    (hchan : (serve history).chans[i]? = some channel) :
    Delivered (remember history (RemoteEvent.read channel msg)) := by
  constructor
  · intro jvm hjvm
    rcases List.mem_iff_getElem?.mp hjvm with ⟨j, hj⟩
    rw [serve_remember_profInfo htype, result_instances] at hj
    rcases Option.map_eq_some_iff.mp hj with ⟨old, hold, rfl⟩
    have hpublished := h.published old (List.mem_of_getElem? hold)
    rw [hcurrent, received_remember_profInfo htype]
    rcases eq_or_ne i j with rfl | hne
    · rcases chans_getElem?.mp hchan with ⟨jvm, hjvm, hsame⟩
      rw [hold, Option.some.injEq] at hjvm
      rw [if_pos rfl, hjvm, hsame, if_pos rfl, ← hsame, ← hjvm, hpublished]
    · have hother : channel ≠ old.chan := by
        intro hsame
        apply hne
        have hlt := (List.getElem?_eq_some_iff.mp hchan).1
        apply (List.getElem?_inj hlt htracks.distinct).mp
        rw [hchan, chans_getElem?.mpr ⟨old, hold, hsame.symm⟩]
      rw [if_neg (fun hsame => hne (Option.some.inj hsame)), if_neg hother,
        List.append_nil, hpublished]
  · intro channel' hreceived
    rw [serve_remember_profInfo htype]
    apply List.mem_map.mp
    change channel' ∈ ((serve history).result msg.id msg).chans
    rw [result_chans]
    rcases eq_or_ne channel channel' with rfl | hne
    · exact List.mem_of_getElem? hchan
    · rw [received_remember_profInfo htype, if_neg hne, List.append_nil]
        at hreceived
      exact List.mem_map.mpr (h.owned channel' hreceived)

/-- A delivered result was published on the instance of its channel, so this is
the one that its process held. -/
theorem Delivered.undisturbed (h : Delivered history)
    (htracks : Tracks history (serve history)) {channel : Nat} {msg : Response}
    (htype : msg.type = ResponseType.profInfo)
    (hinit : Initialised history channel msg.id)
    (hafter : Delivered (remember history (RemoteEvent.read channel msg))) :
    exists msg', lastRegistration msg.id history =
      some (RemoteEvent.read channel msg') := by
  rcases List.mem_iff_getElem?.mp (htracks.initialised channel msg.id hinit)
    with ⟨k, hk⟩
  rcases chans_getElem?.mp hk with ⟨jvm, hjvm, hchan⟩
  have hbefore := h.published jvm (List.mem_of_getElem? hjvm)
  have hcurrent : (serve history).current msg.id = some k := by
    by_contra hother
    -- the instance of the channel would not have got the result
    have hsame : (serve (remember history
        (RemoteEvent.read channel msg))).instances[k]? = some jvm := by
      rw [serve_remember_profInfo htype, result_instances, hjvm]
      simp [hother]
    have hpublished := hafter.published jvm (List.mem_of_getElem? hsame)
    rw [received_remember_profInfo htype, if_pos hchan.symm, hbefore]
      at hpublished
    simp at hpublished
  rcases htracks.value msg.id k hcurrent with ⟨channel', msg', hk', hlast⟩
  rw [hk, Option.some.injEq] at hk'
  rw [hk']
  exact ⟨msg', hlast⟩

theorem Delivered.current_iff (h : Delivered history) {channel i : Nat}
    {msg : Response} (htype : msg.type = ResponseType.profInfo)
    (hafter : Delivered (remember history (RemoteEvent.read channel msg)))
    {jvm : JVMRemoteInstance}
    (hjvm : (serve history).instances[i]? = some jvm) :
    (serve history).current msg.id = some i <-> jvm.chan = channel := by
  have hbefore := h.published jvm (List.mem_of_getElem? hjvm)
  have hnew : (serve (remember history
      (RemoteEvent.read channel msg))).instances[i]? =
        some (if (serve history).current msg.id = some i then
          { jvm with response := jvm.response ++ [msg] } else jvm) := by
    rw [serve_remember_profInfo htype, result_instances, hjvm]
    rfl
  have hpublished := hafter.published _ (List.mem_of_getElem? hnew)
  rw [received_remember_profInfo htype] at hpublished
  constructor
  · intro hcurrent
    rw [if_pos hcurrent, hbefore] at hpublished
    by_contra hne
    simp [Ne.symm hne] at hpublished
  · intro hchan
    by_contra hcurrent
    rw [if_neg hcurrent, hbefore, if_pos hchan.symm] at hpublished
    simp at hpublished

/-- One more event of an allowed history is delivered exactly when it is
undisturbed. -/
theorem delivered_remember_iff (htracks : Tracks history (serve history))
    (h : Delivered history) (hallowed : Allowed history event) :
    Delivered (remember history event) <-> Undisturbed history event := by
  cases event with
  | connect id => exact iff_of_true (h.connect id) trivial
  | read channel msg =>
      cases htype : msg.type with
      | init =>
          have hnew : forall msg', RemoteEvent.read channel msg' ∉ history := by
            simpa [Allowed, htype] using hallowed
          apply iff_of_true (h.init htype hnew)
          intro hprof
          rw [htype] at hprof
          cases hprof
      | profInfo =>
          have hinit : Initialised history channel msg.id := by
            simpa [Allowed, htype] using hallowed
          constructor
          · intro hafter _
            exact h.undisturbed htracks htype hinit hafter
          · intro hundisturbed
            rcases hundisturbed htype with ⟨msg', hlast⟩
            rcases hinit with ⟨earlier, _, hpre, _, _, hconnect⟩
            have hmem : RemoteEvent.connect msg.id ∈ history :=
              hpre.subset (List.mem_append_left _ hconnect)
            rcases htracks.registered msg.id channel msg' hmem hlast with
              ⟨i, hi⟩
            rcases htracks.value msg.id i hi with ⟨channel', msg'', hchan, hsame⟩
            rw [hlast, Option.some.injEq, RemoteEvent.read.injEq] at hsame
            rw [← hsame.left] at hchan
            exact h.profInfo htracks htype hi hchan

theorem delivered_nil : Delivered [] := by
  constructor
  · intro jvm hjvm
    cases hjvm
  · intro channel hreceived
    exact absurd rfl hreceived

/-- In every history of connects and messages, every result reaches the instance
of its own channel in every state, exactly when each arrives while its channel's
INIT message is the last event that registered the process. -/
theorem delivered_iff_undisturbed (events : List RemoteEvent)
    (hallowed : Machine.AllSteps remember Allowed [] events) :
    Machine.AllStates remember Delivered [] events <->
      Machine.AllSteps remember Undisturbed [] events := by
  apply Machine.allStates_iff_allSteps
    (fun history rest => Tracks history (serve history) ∧
      Machine.AllSteps remember Allowed history rest)
  · intro history event rest hinv h
    exact delivered_remember_iff hinv.left h hinv.right.left
  · intro history event rest hinv _ _
    constructor
    · rw [serve_remember]
      exact hinv.left.step hinv.right.left
    · exact hinv.right.right
  · exact ⟨tracks_initial, hallowed⟩
  · exact delivered_nil

/-- The INIT message and a result of process 1. -/
def initMessage : Response :=
  { id := 1, type := ResponseType.init, profInfo := none }

def resultMessage : Response :=
  { id := 1, type := ResponseType.profInfo, profInfo := none }

theorem resultMessage_initialised {history : List RemoteEvent}
    (h : [RemoteEvent.connect 1, RemoteEvent.read 7 initMessage] <+: history) :
    Initialised history 7 1 :=
  ⟨[RemoteEvent.connect 1], initMessage, h, rfl, rfl, List.mem_cons_self⟩

/-- A tab that connects and gets its result. -/
theorem delivered_oneTab :
    Machine.AllStates remember Delivered []
      [RemoteEvent.connect 1, RemoteEvent.read 7 initMessage,
        RemoteEvent.read 7 resultMessage] := by
  apply (delivered_iff_undisturbed _ _).mpr
  · exact ⟨trivial, (by intro h; cases h), fun _ => ⟨initMessage, by decide⟩,
      trivial⟩
  · exact ⟨trivial, (by intro msg h; simp [remember] at h),
      resultMessage_initialised (List.prefix_refl _), trivial⟩

/-- A second tab connects to the same process: the result of the first tab's
channel is dropped. -/
theorem not_delivered_secondTab :
    Machine.AllSteps remember Allowed []
      [RemoteEvent.connect 1, RemoteEvent.read 7 initMessage,
        RemoteEvent.connect 1, RemoteEvent.read 7 resultMessage] ∧
    Not (Machine.AllStates remember Delivered []
      [RemoteEvent.connect 1, RemoteEvent.read 7 initMessage,
        RemoteEvent.connect 1, RemoteEvent.read 7 resultMessage]) := by
  constructor
  · refine ⟨trivial, ?_, trivial, ?_, trivial⟩
    · intro msg h
      simp [remember] at h
    · exact resultMessage_initialised (List.prefix_append _ _)
  · intro h
    have hpublished := h.right.right.right.right.published
      { chan := 7, response := [] } (by decide)
    exact absurd hpublished (by decide)

end Plugin
end Franky
