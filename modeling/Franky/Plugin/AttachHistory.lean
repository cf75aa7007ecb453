import Franky.Plugin.AttachService

/-!
# Which channel answers a tab

A tab is answered by the first INIT message of its process that arrives before
another tab connects to that process, and by no other.  It gets the session when
it has been answered and has subscribed, whichever comes last.
-/

namespace Franky
namespace Plugin

open Foundation
open Protocol

variable {s : JVMAttachService}

/-!
## Who waits, and who is answered

A connection waits for its process from the moment it is made until another
connection or an INIT message takes the place of its subject.
-/

def connectIds (events : List AttachEvent) : List Int32 :=
  events.filterMap (fun event =>
    match event with
    | AttachEvent.connect id => some id
    | _ => none)

def AttachEvent.registers (id : Int32) (event : AttachEvent) : Bool :=
  event.remote.any (RemoteEvent.registers id)

/-- The last event that registered the process is the connection `c`. -/
def Waits (events : List AttachEvent) (c : Nat) (id : Int32) : Prop :=
  exists before between,
    events = before ++ AttachEvent.connect id :: between ∧
      (connectIds before).length = c ∧
      forall event, event ∈ between -> event.registers id = false

/-- An INIT message from the channel `k` arrives while `c` waits. -/
def Answers (events : List AttachEvent) (c k : Nat) : Prop :=
  exists before msg after,
    events = before ++ AttachEvent.read k msg :: after ∧
      msg.type = ResponseType.init ∧ Waits before c msg.id

/-- The channel that the subject of a connection was completed with. -/
def JVMAttachService.answer (s : JVMAttachService) (c : Nat) : Option Nat :=
  (s.connections[c]?).bind (fun conn =>
    conn.channelObs.latest.bind (fun i =>
      (s.instances[i]?).map JVMRemoteInstance.chan))

theorem concat_eq_append_cons_iff {element : Type}
    {xs before after : List element} {last x : element} :
    xs ++ [last] = before ++ x :: after <->
      (after = [] ∧ before = xs ∧ x = last) ∨
        exists after', after = after' ++ [last] ∧
          xs = before ++ x :: after' := by
  constructor
  · intro h
    rcases List.eq_nil_or_concat after with rfl | ⟨after', y, rfl⟩
    · rcases List.append_inj' h rfl with ⟨hxs, hlast⟩
      exact Or.inl ⟨rfl, hxs.symm, (List.singleton_inj.mp hlast).symm⟩
    · right
      rw [List.concat_eq_append, ← List.cons_append, ← List.append_assoc] at h
      rcases List.append_inj' h rfl with ⟨hxs, hlast⟩
      refine ⟨after', ?_, hxs⟩
      rw [List.concat_eq_append, List.singleton_inj.mp hlast]
  · intro h
    rcases h with ⟨rfl, rfl, rfl⟩ | ⟨after', rfl, rfl⟩
    · rfl
    · simp

theorem waits_concat {events : List AttachEvent} {event : AttachEvent} {c : Nat}
    {id : Int32} :
    Waits (events ++ [event]) c id <->
      (Waits events c id ∧ event.registers id = false) ∨
        (event = AttachEvent.connect id ∧ (connectIds events).length = c) := by
  constructor
  · intro h
    rcases h with ⟨before, between, hevents, hc, hquiet⟩
    rcases concat_eq_append_cons_iff.mp hevents with
      ⟨_, rfl, hevent⟩ | ⟨between', rfl, hbefore⟩
    · exact Or.inr ⟨hevent.symm, hc⟩
    · left
      constructor
      · exact ⟨before, between', hbefore, hc,
          fun event' hmem => hquiet event' (List.mem_append_left _ hmem)⟩
      · exact hquiet event (List.mem_append_right _ List.mem_cons_self)
  · intro h
    rcases h with ⟨⟨before, between, rfl, hc, hquiet⟩, hevent⟩ | ⟨rfl, hc⟩
    · refine ⟨before, between ++ [event], by simp, hc, ?_⟩
      intro event' hmem
      rcases List.mem_append.mp hmem with hold | hlast
      · exact hquiet event' hold
      · rw [List.mem_singleton.mp hlast]
        exact hevent
    · exact ⟨events, [], rfl, hc, fun _ hmem => by cases hmem⟩

theorem answers_concat {events : List AttachEvent} {event : AttachEvent}
    {c k : Nat} :
    Answers (events ++ [event]) c k <->
      Answers events c k ∨ exists msg, event = AttachEvent.read k msg ∧
        msg.type = ResponseType.init ∧ Waits events c msg.id := by
  constructor
  · intro h
    rcases h with ⟨before, msg, after, hevents, htype, hwaits⟩
    rcases concat_eq_append_cons_iff.mp hevents with
      ⟨_, rfl, hevent⟩ | ⟨after', rfl, hbefore⟩
    · exact Or.inr ⟨msg, hevent.symm, htype, hwaits⟩
    · exact Or.inl ⟨before, msg, after', hbefore, htype, hwaits⟩
  · intro h
    rcases h with ⟨before, msg, after, rfl, htype, hwaits⟩ |
      ⟨msg, rfl, htype, hwaits⟩
    · exact ⟨before, msg, after ++ [event], by simp, htype, hwaits⟩
    · exact ⟨events, msg, [], rfl, htype, hwaits⟩

/-!
## What an event changes
-/

theorem answer_connect (s : JVMAttachService) (id : Int32) (c : Nat) :
    (s.connect id).answer c = s.answer c := by
  unfold JVMAttachService.answer JVMAttachService.connect
  rcases Nat.lt_trichotomy c s.connections.length with hlt | rfl | hgt
  · rw [List.getElem?_append_left hlt]
  · rw [List.getElem?_concat_length, List.getElem?_eq_none (Nat.le_refl _)]
    rfl
  · rw [List.getElem?_eq_none (Nat.le_of_lt hgt), List.getElem?_eq_none]
    rw [List.length_append]
    exact hgt

theorem answer_modify {f : Connection -> Connection}
    (hf : forall conn, (f conn).channelObs = conn.channelObs) (c c' : Nat) :
    JVMAttachService.answer
      { s with connections := s.connections.modify c f } c' = s.answer c' := by
  unfold JVMAttachService.answer
  rw [List.getElem?_modify]
  cases s.connections[c']? with
  | none => rfl
  | some conn => by_cases hc : c = c' <;> simp [hc, hf]

theorem result_chan (s : JVMAttachService) (id : Int32) (msg : Response)
    (i : Nat) :
    ((s.result id msg).instances[i]?).map JVMRemoteInstance.chan =
      (s.instances[i]?).map JVMRemoteInstance.chan := by
  unfold JVMAttachService.result
  cases s.current id with
  | none => rfl
  | some j =>
      dsimp only
      rw [List.getElem?_modify]
      cases s.instances[i]? with
      | none => rfl
      | some jvm => by_cases hj : j = i <;> simp [hj]

theorem result_connections (s : JVMAttachService) (id : Int32)
    (msg : Response) :
    (s.result id msg).connections = s.connections ∧
      (s.result id msg).jvms = s.jvms := by
  unfold JVMAttachService.result
  cases s.current id <;> exact ⟨rfl, rfl⟩

theorem answer_result (s : JVMAttachService) (id : Int32) (msg : Response)
    (c : Nat) : (s.result id msg).answer c = s.answer c := by
  unfold JVMAttachService.answer
  rw [(result_connections s id msg).left]
  simp only [result_chan]

/-- What is known of each connection. -/
structure Connection.Sound (conn : Connection) (n : Nat) : Prop where
  completed : conn.channelObs.completed = conn.channelObs.latest.isSome
  latest : forall i, conn.channelObs.latest = some i -> i < n
  session : conn.session =
    if conn.subscribed then conn.channelObs.latest else none

def JVMAttachService.Sound (s : JVMAttachService) : Prop :=
  forall (c : Nat) (conn : Connection), s.connections[c]? = some conn ->
    conn.Sound s.instances.length

namespace Connection.Sound

variable {conn : Connection} {n : Nat}

theorem mono (h : conn.Sound n) {m : Nat} (hm : n ≤ m) : conn.Sound m :=
  ⟨h.completed, fun i hi => Nat.lt_of_lt_of_le (h.latest i hi) hm, h.session⟩

theorem session_lt (h : conn.Sound n) {i : Nat} (hi : conn.session = some i) :
    i < n := by
  rw [h.session] at hi
  split at hi
  · exact h.latest i hi
  · cases hi

theorem attachReturns (h : conn.Sound n) (succeeds : Bool) :
    (conn.attachReturns succeeds).Sound n := by
  unfold Connection.attachReturns
  split
  · exact ⟨h.completed, h.latest, h.session⟩
  · exact h

theorem subscribe (h : conn.Sound n) : conn.subscribe.Sound n := by
  unfold Connection.subscribe
  split
  · exact ⟨h.completed, h.latest, rfl⟩
  · exact h

/-- A subject that completes for the second time keeps what it has told its
subscribers. -/
theorem complete_latest (h : conn.Sound n) :
    (conn.complete n).channelObs.latest =
      some (conn.channelObs.latest.getD n) := by
  have hcompleted := h.completed
  cases hlatest : conn.channelObs.latest with
  | none =>
      rw [hlatest] at hcompleted
      simp [Connection.complete, ChannelSubject.onCompleted,
        ChannelSubject.onNext, AsyncSubject.onNext, hcompleted]
  | some i =>
      rw [hlatest] at hcompleted
      simp [Connection.complete, ChannelSubject.onCompleted,
        ChannelSubject.onNext, AsyncSubject.onNext, hcompleted, hlatest]

theorem complete (h : conn.Sound n) : (conn.complete n).Sound (n + 1) where
  completed := by
    rw [h.complete_latest]
    rfl
  latest := by
    intro i hi
    rw [h.complete_latest] at hi
    cases hlatest : conn.channelObs.latest with
    | none =>
        rw [hlatest] at hi
        cases hi
        exact Nat.lt_succ_self n
    | some j =>
        rw [hlatest] at hi
        cases hi
        exact Nat.lt_succ_of_lt (h.latest j hlatest)
  session := by
    have hcompleted := h.completed
    have hsession := h.session
    rw [h.complete_latest]
    unfold Connection.complete
    dsimp only
    cases hlatest : conn.channelObs.latest with
    | none =>
        rw [hlatest] at hcompleted hsession
        cases hsub : conn.subscribed <;> simp [hcompleted, hsession]
    | some j =>
        rw [hlatest] at hcompleted hsession
        simp [hcompleted, hsession]

end Connection.Sound

namespace JVMAttachService.Sound

theorem modify (h : s.Sound) {f : Connection -> Connection}
    {instances : List JVMRemoteInstance}
    (hmono : s.instances.length ≤ instances.length)
    (hf : forall conn : Connection, conn.Sound s.instances.length ->
      (f conn).Sound instances.length) (c : Nat) :
    JVMAttachService.Sound
      { s with
        connections := s.connections.modify c f, instances := instances } := by
  intro c' conn' hconn'
  dsimp only at hconn'
  rw [List.getElem?_modify] at hconn'
  rcases Option.map_eq_some_iff.mp hconn' with ⟨conn, hconn, rfl⟩
  split
  · exact hf conn (h c' conn hconn)
  · exact (h c' conn hconn).mono hmono

theorem connect (h : s.Sound) (id : Int32) : (s.connect id).Sound := by
  intro c conn hconn
  unfold JVMAttachService.connect at hconn
  rcases List.mem_append.mp (List.mem_of_getElem? hconn) with hold | hnew
  · rcases List.mem_iff_getElem?.mp hold with ⟨c', hc'⟩
    exact h c' conn hc'
  · rw [List.mem_singleton.mp hnew]
    exact ⟨rfl, (fun i hi => by cases hi), rfl⟩

theorem setChan (h : s.Sound) (id : Int32) (channel : Nat) :
    ((s.setChan id channel).getD s).Sound := by
  unfold JVMAttachService.setChan
  cases s.jvms id with
  | none => exact h
  | some c =>
      apply h.modify
      · simp
      · intro conn hconn
        rw [List.length_append]
        exact hconn.complete

theorem result (h : s.Sound) (id : Int32) (msg : Response) :
    (s.result id msg).Sound := by
  unfold JVMAttachService.result
  cases s.current id with
  | none => exact h
  | some i =>
      intro c conn hconn
      dsimp only
      rw [List.length_modify]
      exact h c conn hconn

theorem step (h : s.Sound) (event : AttachEvent) : (s.step event).Sound := by
  cases event with
  | connect id => exact h.connect id
  | attach c succeeds =>
      exact h.modify (Nat.le_refl _)
        (fun conn hconn => hconn.attachReturns succeeds) c
  | subscribe c =>
      exact h.modify (Nat.le_refl _) (fun conn hconn => hconn.subscribe) c
  | read channel msg =>
      change (s.channelRead0 channel msg).Sound
      unfold JVMAttachService.channelRead0
      cases msg.type with
      | init => exact h.setChan msg.id channel
      | profInfo => exact h.result msg.id msg

end JVMAttachService.Sound

theorem attended_sound (events : List AttachEvent) :
    (attended events).Sound := by
  have hinitial : JVMAttachService.initial.Sound := by
    intro c conn hconn
    cases hconn
  exact Machine.run_invariant
    (fun (s : JVMAttachService) event (h : s.Sound) => h.step event) hinitial
    events

theorem answer_eq {c : Nat} {conn : Connection}
    (hconn : s.connections[c]? = some conn) :
    s.answer c = conn.channelObs.latest.bind (fun i =>
      (s.instances[i]?).map JVMRemoteInstance.chan) := by
  unfold JVMAttachService.answer
  rw [hconn, Option.bind_some]

theorem answer_setChan (hregistered : s.Registered) (hsound : s.Sound)
    {id : Int32} {c : Nat} (hc : s.jvms id = some c) (channel c' : Nat) :
    ((s.setChan id channel).getD s).answer c' =
      if c = c' ∧ s.answer c = none then some channel else s.answer c' := by
  rcases hregistered id c hc with ⟨conn, hconn, _⟩
  unfold JVMAttachService.setChan
  rw [hc, Option.getD_some]
  cases hconn' : s.connections[c']? with
  | none =>
      have hne : c ≠ c' := by
        rintro rfl
        rw [hconn] at hconn'
        cases hconn'
      rw [if_neg (fun hboth => hne hboth.left)]
      simp [JVMAttachService.answer, List.getElem?_modify, hconn']
  | some conn' =>
      have hafter : (s.connections.modify c
          (fun conn => conn.complete s.instances.length))[c']? =
            some (if c = c' then conn'.complete s.instances.length
              else conn') := by
        rw [List.getElem?_modify, hconn']
        rfl
      rw [answer_eq hafter]
      have hsound' := hsound c' conn' hconn'
      rcases eq_or_ne c c' with rfl | hne
      · rw [if_pos rfl, hsound'.complete_latest, answer_eq hconn']
        cases hold : conn'.channelObs.latest with
        | none => simp
        | some i =>
            have hlt := hsound'.latest i hold
            simp [List.getElem?_append_left hlt, hlt]
      · rw [if_neg hne, if_neg (fun hboth => hne hboth.left), answer_eq hconn']
        cases hold : conn'.channelObs.latest with
        | none => rfl
        | some i =>
            have hlt := hsound'.latest i hold
            simp [List.getElem?_append_left hlt, hlt]

theorem sessionChan_eq (hsound : s.Sound) {c : Nat} {conn : Connection}
    (hconn : s.connections[c]? = some conn) :
    s.sessionChan c = if conn.subscribed then s.answer c else none := by
  have hsession := (hsound c conn hconn).session
  unfold JVMAttachService.sessionChan JVMAttachService.answer
  rw [hconn, Option.bind_some, Option.bind_some, hsession]
  split <;> rfl

/-!
## What connections keep
-/

/-- The connection is there, with the property. -/
def JVMAttachService.Has (s : JVMAttachService) (c : Nat)
    (holds : Connection -> Prop) : Prop :=
  exists conn, s.connections[c]? = some conn ∧ holds conn

/-- The calls of a connection do not end the property. -/
structure Lasting (holds : Connection -> Prop) : Prop where
  attachReturns : forall (conn : Connection) succeeds, holds conn ->
    holds (conn.attachReturns succeeds)
  subscribe : forall conn : Connection, holds conn -> holds conn.subscribe
  complete : forall (conn : Connection) i, holds conn ->
    holds (conn.complete i)

namespace JVMAttachService.Has

variable {holds : Connection -> Prop} {c : Nat}

theorem modify (h : s.Has c holds) {f : Connection -> Connection}
    (hf : forall conn, holds conn -> holds (f conn)) (c' : Nat)
    (instances : List JVMRemoteInstance) :
    JVMAttachService.Has
      { s with
        connections := s.connections.modify c' f, instances := instances } c
      holds := by
  rcases h with ⟨conn, hconn, hholds⟩
  refine ⟨if c' = c then f conn else conn, ?_, ?_⟩
  · simp [List.getElem?_modify, hconn]
  · split
    · exact hf conn hholds
    · exact hholds

theorem step (h : s.Has c holds) (hlasting : Lasting holds)
    (event : AttachEvent) : (s.step event).Has c holds := by
  cases event with
  | connect id =>
      rcases h with ⟨conn, hconn, hholds⟩
      refine ⟨conn, ?_, hholds⟩
      exact (List.getElem?_append_left
        (List.getElem?_eq_some_iff.mp hconn).1).trans hconn
  | attach c' succeeds =>
      exact h.modify (fun conn => hlasting.attachReturns conn succeeds) c'
        s.instances
  | subscribe c' => exact h.modify hlasting.subscribe c' s.instances
  | read channel msg =>
      change (s.channelRead0 channel msg).Has c holds
      unfold JVMAttachService.channelRead0
      cases msg.type with
      | init =>
          dsimp only
          unfold JVMAttachService.setChan
          cases s.jvms msg.id with
          | none => exact h
          | some c' =>
              exact h.modify
                (fun conn => hlasting.complete conn s.instances.length) c' _
      | profInfo =>
          unfold JVMAttachService.Has
          dsimp only
          rw [(result_connections s msg.id msg).left]
          exact h

theorem append {before : List AttachEvent} (h : (attended before).Has c holds)
    (hlasting : Lasting holds) (after : List AttachEvent) :
    (attended (before ++ after)).Has c holds := by
  unfold attended at h ⊢
  rw [Machine.run_append]
  exact Machine.run_invariant
    (fun (s : JVMAttachService) event (h : s.Has c holds) =>
      h.step hlasting event) h after

end JVMAttachService.Has

/-!
## A history and its state
-/

structure Attends (events : List AttachEvent) (s : JVMAttachService) :
    Prop where
  ids : s.connections.map Connection.id = connectIds events
  waits : forall c id, Waits events c id <->
    s.jvms id = some c ∧ s.answer c = none
  answers : forall c k, Answers events c k <-> s.answer c = some k

namespace Attends

variable {events : List AttachEvent}

theorem quiet (h : Attends events s) {event : AttachEvent}
    {s' : JVMAttachService} (hregisters : forall id, event.registers id = false)
    (hids : s'.connections.map Connection.id = s.connections.map Connection.id)
    (hjvms : s'.jvms = s.jvms) (hanswer : forall c, s'.answer c = s.answer c) :
    Attends (events ++ [event]) s' := by
  have hconnect : forall id, event ≠ AttachEvent.connect id := by
    rintro id rfl
    have hsame := hregisters id
    simp [AttachEvent.registers, AttachEvent.remote, RemoteEvent.registers]
      at hsame
  constructor
  · rw [hids, h.ids]
    cases event with
    | connect id => exact absurd rfl (hconnect id)
    | attach c succeeds => simp [connectIds]
    | subscribe c => simp [connectIds]
    | read channel msg => simp [connectIds]
  · intro c id
    rw [waits_concat, hjvms, hanswer, ← h.waits]
    simp [hregisters, hconnect]
  · intro c k
    rw [answers_concat, hanswer, ← h.answers]
    constructor
    · intro hanswers
      rcases hanswers with hold | ⟨msg, rfl, htype, _⟩
      · exact hold
      · have hsame := hregisters msg.id
        simp [AttachEvent.registers, AttachEvent.remote, RemoteEvent.registers,
          htype] at hsame
    · exact Or.inl

theorem connect (h : Attends events s) (id : Int32) :
    Attends (events ++ [AttachEvent.connect id]) (s.connect id) := by
  have hlength : (connectIds events).length = s.connections.length := by
    rw [← h.ids, List.length_map]
  have hnew : s.answer s.connections.length = none := by
    unfold JVMAttachService.answer
    rw [List.getElem?_eq_none (Nat.le_refl _)]
    rfl
  constructor
  · have hids := h.ids
    simp only [connectIds] at hids ⊢
    rw [List.filterMap_append, ← hids]
    simp [JVMAttachService.connect, Connection.start]
  · intro c id'
    rw [waits_concat, h.waits, hlength, answer_connect]
    rcases eq_or_ne id' id with rfl | hne
    · have hfree : s.connections.length = c -> s.answer c = none := by
        rintro rfl
        exact hnew
      simpa [JVMAttachService.connect, AttachEvent.registers,
        AttachEvent.remote, RemoteEvent.registers] using hfree
    · simp [JVMAttachService.connect, AttachEvent.registers,
        AttachEvent.remote, RemoteEvent.registers, hne, hne.symm]
  · intro c k
    rw [answers_concat, answer_connect, ← h.answers]
    simp

theorem setChan (h : Attends events s) (hregistered : s.Registered)
    (hsound : s.Sound) {channel : Nat} {msg : Response}
    (htype : msg.type = ResponseType.init) :
    Attends (events ++ [AttachEvent.read channel msg])
      ((s.setChan msg.id channel).getD s) := by
  have hregisters : forall id,
      (AttachEvent.read channel msg).registers id = decide (msg.id = id) := by
    intro id
    simp [AttachEvent.registers, AttachEvent.remote, RemoteEvent.registers,
      htype]
  have hids : connectIds (events ++ [AttachEvent.read channel msg]) =
      connectIds events := by
    simp [connectIds]
  cases hc : s.jvms msg.id with
  | none =>
      have hsame : (s.setChan msg.id channel).getD s = s := by
        unfold JVMAttachService.setChan
        rw [hc]
        rfl
      have hwaits : forall c, Not (Waits events c msg.id) := by
        intro c hwaits
        have hjvms := ((h.waits c msg.id).mp hwaits).left
        rw [hc] at hjvms
        cases hjvms
      rw [hsame]
      constructor
      · rw [hids]
        exact h.ids
      · intro c id
        rw [waits_concat, hregisters, ← h.waits]
        rcases eq_or_ne msg.id id with rfl | hne
        · simp [hwaits c]
        · simp [hne]
      · intro c k
        rw [answers_concat, ← h.answers]
        constructor
        · intro hanswers
          rcases hanswers with hold | ⟨msg', hevent, _, hwaits'⟩
          · exact hold
          · cases hevent
            exact absurd hwaits' (hwaits c)
        · exact Or.inl
  | some c =>
      have hanswer := answer_setChan hregistered hsound hc channel
      have hafter : (s.setChan msg.id channel).getD s =
          { s with
            connections := s.connections.modify c
              (fun conn => conn.complete s.instances.length)
            instances :=
              s.instances ++ [{ chan := channel, response := [] }] } := by
        unfold JVMAttachService.setChan
        rw [hc]
        rfl
      have hjvms : ((s.setChan msg.id channel).getD s).jvms = s.jvms := by
        rw [hafter]
      constructor
      · rw [hids, ← h.ids, hafter]
        apply List.ext_getElem?
        intro c'
        simp only [List.getElem?_map, List.getElem?_modify]
        cases s.connections[c']? with
        | none => rfl
        | some conn =>
            by_cases hsame : c = c' <;> simp [hsame, Connection.complete]
      · intro c' id
        rw [waits_concat, hregisters, h.waits, hjvms, hanswer]
        rcases eq_or_ne msg.id id with rfl | hne
        · simp only [hc, Option.some.injEq]
          rcases eq_or_ne c c' with rfl | hother
          · cases s.answer c <;> simp
          · simp [hother]
        · have hother : s.jvms id = some c' -> c ≠ c' := by
            rintro hc' rfl
            rcases hregistered msg.id c hc with ⟨conn, hconn, hid⟩
            rcases hregistered id c hc' with ⟨conn', hconn', hid'⟩
            rw [hconn] at hconn'
            cases hconn'
            exact hne (hid.symm.trans hid')
          constructor
          · intro hleft
            rcases hleft with ⟨⟨hc', hnone⟩, _⟩ | ⟨hevent, _⟩
            · rw [if_neg (fun hboth => hother hc' hboth.left)]
              exact ⟨hc', hnone⟩
            · cases hevent
          · intro hright
            rcases hright with ⟨hc', hnone⟩
            rw [if_neg (fun hboth => hother hc' hboth.left)] at hnone
            exact Or.inl ⟨⟨hc', hnone⟩, by simp [hne]⟩
      · intro c' k
        rw [answers_concat, hanswer, h.answers]
        have hnew : (exists msg', AttachEvent.read channel msg =
              AttachEvent.read k msg' ∧ msg'.type = ResponseType.init ∧
                Waits events c' msg'.id) <->
            channel = k ∧ c = c' ∧ s.answer c' = none := by
          constructor
          · intro hevent
            rcases hevent with ⟨msg', hevent, _, hwaits⟩
            cases hevent
            have hboth := (h.waits c' msg.id).mp hwaits
            rw [hc, Option.some.injEq] at hboth
            exact ⟨rfl, hboth⟩
          · intro hboth
            rcases hboth with ⟨rfl, rfl, hnone⟩
            exact ⟨msg, rfl, htype, (h.waits c msg.id).mpr ⟨hc, hnone⟩⟩
        rw [hnew]
        rcases eq_or_ne c c' with rfl | hother
        · cases s.answer c <;> simp
        · simp [hother]

theorem step (h : Attends events s) (hregistered : s.Registered)
    (hsound : s.Sound) (event : AttachEvent) :
    Attends (events ++ [event]) (s.step event) := by
  have hids : forall (f : Connection -> Connection) c,
      (forall conn, (f conn).id = conn.id) ->
        (s.connections.modify c f).map Connection.id =
          s.connections.map Connection.id := by
    intro f c hf
    apply List.ext_getElem?
    intro c'
    simp only [List.getElem?_map, List.getElem?_modify]
    cases s.connections[c']? with
    | none => rfl
    | some conn => by_cases hsame : c = c' <;> simp [hsame, hf]
  cases event with
  | connect id => exact h.connect id
  | attach c succeeds =>
      apply h.quiet (fun id => rfl)
      · exact hids _ c (fun conn => (attachReturns_frame conn succeeds).left)
      · rfl
      · exact answer_modify
          (fun conn => (attachReturns_frame conn succeeds).right) c
  | subscribe c =>
      apply h.quiet (fun id => rfl)
      · exact hids _ c (fun conn => (subscribe_frame conn).left)
      · rfl
      · exact answer_modify (fun conn => (subscribe_frame conn).right) c
  | read channel msg =>
      change Attends _ (s.channelRead0 channel msg)
      unfold JVMAttachService.channelRead0
      cases htype : msg.type with
      | init => exact h.setChan hregistered hsound htype
      | profInfo =>
          rcases result_connections s msg.id msg with ⟨hconnections, hjvms⟩
          apply h.quiet
          · intro id
            simp [AttachEvent.registers, AttachEvent.remote,
              RemoteEvent.registers, htype]
          · rw [hconnections]
          · exact hjvms
          · exact answer_result s msg.id msg

end Attends

theorem attended_attends (events : List AttachEvent) :
    Attends events (attended events) := by
  have hinitial : Attends [] JVMAttachService.initial := by
    constructor
    · rfl
    · intro c id
      constructor
      · rintro ⟨before, between, hevents, _⟩
        simp at hevents
      · rintro ⟨hjvms, _⟩
        cases hjvms
    · intro c k
      constructor
      · rintro ⟨before, msg, after, hevents, _⟩
        simp at hevents
      · intro hanswer
        cases hanswer
  apply Machine.run_history Attends hinitial
  intro before event _ h
  exact h.step (attended_registered before) (attended_sound before) event

/-- A tab gets a session when it has subscribed and is answered, and the session
has the channel of the message that answered it. -/
theorem sessionChan_iff (events : List AttachEvent) (c k : Nat) :
    (attended events).sessionChan c = some k <->
      (exists conn, (attended events).connections[c]? = some conn ∧
        conn.subscribed = true) ∧ Answers events c k := by
  rw [(attended_attends events).answers]
  have hsound := attended_sound events
  cases hconn : (attended events).connections[c]? with
  | none =>
      unfold JVMAttachService.sessionChan
      simp [hconn]
  | some conn =>
      rw [sessionChan_eq hsound hconn]
      cases hsub : conn.subscribed <;> simp [hsub]

theorem lasting_subscribed : Lasting (fun conn => conn.subscribed = true) where
  attachReturns := by
    intro conn succeeds hsubscribed
    unfold Connection.attachReturns
    split <;> exact hsubscribed
  subscribe := by
    intro conn hsubscribed
    unfold Connection.subscribe
    split
    · rfl
    · exact hsubscribed
  complete := fun _ _ hsubscribed => hsubscribed

theorem sessionChan_concat {events : List AttachEvent} {c k : Nat}
    (h : (attended events).sessionChan c = some k) (event : AttachEvent) :
    (attended (events ++ [event])).sessionChan c = some k := by
  rw [sessionChan_iff] at h ⊢
  rcases h with ⟨hsubscribed, hanswers⟩
  have hstill : (attended events).Has c (fun conn => conn.subscribed = true) :=
    hsubscribed
  exact ⟨hstill.append lasting_subscribed [event],
    answers_concat.mpr (Or.inl hanswers)⟩

end Plugin
end Franky
