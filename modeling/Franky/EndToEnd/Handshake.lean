import Franky.Agent.Frames
import Franky.Plugin.AttachHistory

/-!
# Tabs and the agents they get

Many tabs connect, to one process or to several.  Each loads an agent, which
introduces itself over a channel of its own.  In whatever order this happens, no
agent is shared by two tabs, and none is driven from the tab of another process.
Where the tabs of each process take turns, every tab gets its own agent.
-/

namespace Franky
namespace EndToEnd

open Foundation
open Protocol
open Agent (Introduced initResponse)
open Plugin

/-!
## Agents

The agent that a connection has loaded has the connection's number for a
channel.
-/

def messagesFrom (history : List AttachEvent) (k : Nat) : List Response :=
  history.filterMap (fun event =>
    match event with
    | AttachEvent.read channel msg => if channel = k then some msg else none
    | _ => none)

def extend (history : List AttachEvent) (event : AttachEvent) :
    List AttachEvent :=
  history ++ [event]

/-- Messages come from the agent of a connection that is attached, and it
introduces itself as the process that it runs in. -/
def AgentSends (history : List AttachEvent) : AttachEvent -> Prop
  | AttachEvent.read k msg =>
      exists conn, (attended history).connections[k]? = some conn ∧
        conn.attach = Attach.attached ∧
        Introduced conn.id (messagesFrom history k ++ [msg])
  | _ => True

/-- A process is connected to when no agent of an earlier connection to it is
still to introduce itself. -/
def TakesTurns (history : List AttachEvent) : AttachEvent -> Prop
  | AttachEvent.connect id =>
      forall k conn, (attended history).connections[k]? = some conn ->
        conn.id = id ->
          conn.attach = Attach.failed ∨ messagesFrom history k ≠ []
  | _ => True

theorem run_extend (history events : List AttachEvent) :
    Machine.run extend history events = history ++ events := by
  induction events generalizing history with
  | nil => exact (List.append_nil history).symm
  | cons event events ih =>
      rw [Machine.run_cons, ih, extend, List.append_assoc]
      rfl

variable {events before after between : List AttachEvent}

theorem holds_before {ok : List AttachEvent -> AttachEvent -> Prop}
    (h : Machine.AllSteps extend ok [] events) {event : AttachEvent}
    (hbefore : before ++ [event] <+: events) : ok before event := by
  have hstep := h.at_prefix hbefore
  rw [run_extend] at hstep
  exact hstep

theorem messagesFrom_append (before after : List AttachEvent) (k : Nat) :
    messagesFrom (before ++ after) k =
      messagesFrom before k ++ messagesFrom after k :=
  List.filterMap_append

theorem messagesFrom_read (before : List AttachEvent) (k : Nat)
    (msg : Response) :
    messagesFrom (before ++ [AttachEvent.read k msg]) k =
      messagesFrom before k ++ [msg] := by
  rw [messagesFrom_append]
  simp [messagesFrom]

theorem messagesFrom_ne_nil (h : before <+: events) {k : Nat}
    (hne : messagesFrom before k ≠ []) : messagesFrom events k ≠ [] := by
  rcases h with ⟨after, rfl⟩
  rw [messagesFrom_append]
  exact List.append_ne_nil_of_left_ne_nil hne _

theorem introduced_concat {pid : Int32} {messages : List Response}
    {msg : Response} (h : Introduced pid (messages ++ [msg])) :
    (messages = [] ∧ msg = initResponse pid) ∨
      (exists results, messages = initResponse pid :: results) ∧
        msg.id = pid ∧ msg.type = ResponseType.profInfo := by
  rcases h with ⟨results, hmessages, hresults⟩
  cases messages with
  | nil =>
      left
      exact ⟨rfl, (List.cons.inj hmessages).left⟩
  | cons message messages =>
      right
      rcases List.cons.inj hmessages with ⟨rfl, htail⟩
      have hmsg := hresults msg (by rw [← htail]; simp)
      exact ⟨⟨messages, rfl⟩, hmsg.left, hmsg.right.left⟩

/-!
## Connections keep their process
-/

theorem connection_id {c : Nat} {conn : Connection}
    (h : (attended events).connections[c]? = some conn) :
    (connectIds events)[c]? = some conn.id := by
  rw [← (attended_attends events).ids, List.getElem?_map, h]
  rfl

theorem connectIds_append (before after : List AttachEvent) :
    connectIds (before ++ after) = connectIds before ++ connectIds after :=
  List.filterMap_append

theorem connectIds_mono (h : before <+: events) :
    connectIds before <+: connectIds events := by
  rcases h with ⟨after, rfl⟩
  rw [connectIds_append]
  exact List.prefix_append _ _

theorem exists_connection {c : Nat} {id : Int32}
    (h : (connectIds events)[c]? = some id) :
    exists conn, (attended events).connections[c]? = some conn ∧
      conn.id = id := by
  rw [← (attended_attends events).ids, List.getElem?_map] at h
  exact Option.map_eq_some_iff.mp h

theorem exists_connect {c : Nat} {id : Int32}
    (h : (connectIds events)[c]? = some id) :
    exists before between,
      events = before ++ AttachEvent.connect id :: between ∧
        (connectIds before).length = c := by
  induction events using List.reverseRecOn with
  | nil => cases h
  | append_singleton events event ih =>
      rw [connectIds_append] at h
      by_cases hlt : c < (connectIds events).length
      · rw [List.getElem?_append_left hlt] at h
        rcases ih h with ⟨before, between, hevents, hc⟩
        exact ⟨before, between ++ [event], by rw [hevents]; simp, hc⟩
      · have hle := Nat.le_of_not_lt hlt
        rw [List.getElem?_append_right hle] at h
        cases event with
        | connect id' =>
            have hlt' := (List.getElem?_eq_some_iff.mp h).1
            have hzero := Nat.lt_one_iff.mp hlt'
            rw [hzero] at h
            cases h
            exact ⟨events, [], rfl, by lia⟩
        | attach c succeeds => cases h
        | subscribe c => cases h
        | read channel msg => cases h

/-- A call that has returned or thrown stays so. -/
def Returned (k : Nat) (attach : Attach) (s : JVMAttachService) : Prop :=
  exists conn, s.connections[k]? = some conn ∧ conn.attach = attach

theorem lasting_returned {attach : Attach} (hdone : attach ≠ Attach.pending) :
    Lasting (fun conn => conn.attach = attach) where
  attachReturns := by
    intro conn succeeds hattach
    unfold Connection.attachReturns
    split
    · next hpending => exact absurd (hattach.symm.trans hpending) hdone
    · exact hattach
  subscribe := by
    intro conn hattach
    unfold Connection.subscribe
    split <;> exact hattach
  complete := fun _ _ hattach => hattach

theorem Returned.append {k : Nat} {attach : Attach}
    (hdone : attach ≠ Attach.pending) (h : Returned k attach (attended before))
    (after : List AttachEvent) :
    Returned k attach (attended (before ++ after)) :=
  JVMAttachService.Has.append h (lasting_returned hdone) after

theorem agent_init (hagents : Machine.AllSteps extend AgentSends [] events)
    {k : Nat} {msg : Response}
    (hread : before ++ [AttachEvent.read k msg] <+: events)
    (htype : msg.type = ResponseType.init) :
    messagesFrom before k = [] ∧ (connectIds before)[k]? = some msg.id ∧
      Returned k Attach.attached (attended before) := by
  rcases holds_before hagents hread with ⟨conn, hconn, hattach, hintroduced⟩
  rcases introduced_concat hintroduced with ⟨hnil, rfl⟩ | ⟨_, _, hprof⟩
  · exact ⟨hnil, connection_id hconn, conn, hconn, hattach⟩
  · rw [htype] at hprof
    cases hprof

/-!
## No agent is shared
-/

theorem init_once (hagents : Machine.AllSteps extend AgentSends [] events)
    {k : Nat} {msg msg' : Response} {before' : List AttachEvent}
    (hread : before ++ [AttachEvent.read k msg] <+: events)
    (hread' : before' ++ [AttachEvent.read k msg'] <+: events)
    (htype : msg.type = ResponseType.init)
    (htype' : msg'.type = ResponseType.init) :
    before = before' ∧ msg = msg' := by
  have hearlier : forall {before before' : List AttachEvent} {msg : Response},
      messagesFrom before' k = [] ->
        Not (before ++ [AttachEvent.read k msg] <+: before') := by
    intro before before' msg hnil hpre
    apply messagesFrom_ne_nil hpre _ hnil
    rw [messagesFrom_read]
    exact List.append_ne_nil_of_right_ne_nil _ (List.cons_ne_nil _ _)
  have hnil := (agent_init hagents hread htype).left
  have hnil' := (agent_init hagents hread' htype').left
  rcases List.prefix_or_prefix_of_prefix hread hread' with hpre | hpre
  · rcases List.prefix_concat_iff.mp hpre with hsame | hpre
    · rcases List.append_inj' hsame rfl with ⟨hbefore, hlast⟩
      cases List.singleton_inj.mp hlast
      exact ⟨hbefore, rfl⟩
    · exact absurd hpre (hearlier hnil')
  · rcases List.prefix_concat_iff.mp hpre with hsame | hpre
    · rcases List.append_inj' hsame rfl with ⟨hbefore, hlast⟩
      cases List.singleton_inj.mp hlast
      exact ⟨hbefore.symm, rfl⟩
    · exact absurd hpre (hearlier hnil)

/-- Two tabs never wait for one process. -/
theorem waits_unique {c c' : Nat} {id : Int32} (h : Waits events c id)
    (h' : Waits events c' id) : c = c' := by
  have hattends := attended_attends events
  have hc := ((hattends.waits c id).mp h).left
  have hc' := ((hattends.waits c' id).mp h').left
  rw [hc] at hc'
  exact Option.some.inj hc'

theorem waits_id {c : Nat} {id : Int32} (h : Waits events c id) :
    (connectIds events)[c]? = some id := by
  rcases h with ⟨before, between, rfl, rfl, _⟩
  rw [connectIds_append, List.getElem?_append_right (le_refl _)]
  simp [connectIds]

theorem answers_unique (hagents : Machine.AllSteps extend AgentSends [] events)
    {c c' k : Nat} (h : Answers events c k) (h' : Answers events c' k) :
    c = c' := by
  rcases h with ⟨before, msg, after, hevents, htype, hwaits⟩
  rcases h' with ⟨before', msg', after', hevents', htype', hwaits'⟩
  have hread : before ++ [AttachEvent.read k msg] <+: events :=
    ⟨after, by rw [hevents]; simp⟩
  have hread' : before' ++ [AttachEvent.read k msg'] <+: events :=
    ⟨after', by rw [hevents']; simp⟩
  rcases init_once hagents hread hread' htype htype' with ⟨rfl, rfl⟩
  exact waits_unique hwaits hwaits'

theorem getElem?_of_isPrefix {element : Type} {xs ys : List element}
    (h : xs <+: ys) {i : Nat} {x : element} (hx : xs[i]? = some x) :
    ys[i]? = some x := by
  rcases List.getElem?_eq_some_iff.mp hx with ⟨hlt, rfl⟩
  exact List.prefix_iff_getElem?.mp h i hlt

/-- In every order of events, a session is on the channel of an agent that runs
in the process its tab has connected to, and no other tab has a session on that
channel. -/
theorem sessions_private (events : List AttachEvent)
    (hagents : Machine.AllSteps extend AgentSends [] events) (c k : Nat)
    (hsession : (attended events).sessionChan c = some k) :
    (exists conn agent, (attended events).connections[c]? = some conn ∧
      (attended events).connections[k]? = some agent ∧
      agent.attach = Attach.attached ∧ agent.id = conn.id) ∧
    forall c', (attended events).sessionChan c' = some k -> c' = c := by
  have hanswers := ((sessionChan_iff events c k).mp hsession).right
  constructor
  · rcases hanswers with ⟨before, msg, after, hevents, htype, hwaits⟩
    have hread : before ++ [AttachEvent.read k msg] <+: events :=
      ⟨after, by rw [hevents]; simp⟩
    have hbegin := (List.prefix_append before _).trans hread
    rcases agent_init hagents hread htype with ⟨_, hid, hattached⟩
    rcases hbegin with ⟨rest, rfl⟩
    rcases hattached.append (by decide) rest with ⟨agent, hagent, hattach⟩
    have hids := connectIds_mono (List.prefix_append before rest)
    rcases exists_connection (getElem?_of_isPrefix hids (waits_id hwaits)) with
      ⟨conn, hconn, hsame⟩
    have hk := getElem?_of_isPrefix hids hid
    rw [connection_id hagent, Option.some.injEq] at hk
    exact ⟨conn, agent, hconn, hagent, hattach, hk.trans hsame.symm⟩
  · intro c' hsession'
    exact answers_unique hagents
      ((sessionChan_iff events c' k).mp hsession').right hanswers

/-- Two tabs of one process: the first agent to introduce itself answers the
second tab. -/
def crossedTabs : List AttachEvent :=
  [AttachEvent.connect 1, AttachEvent.connect 1, AttachEvent.attach 0 true,
    AttachEvent.subscribe 0, AttachEvent.read 0 (initResponse 1),
    AttachEvent.attach 1 true, AttachEvent.subscribe 1,
    AttachEvent.read 1 (initResponse 1)]

theorem introduced_initResponse (id : Int32) :
    Introduced id ([] ++ [initResponse id]) :=
  ⟨[], rfl, fun _ hmem => by cases hmem⟩

theorem sessions_private_crossed :
    (attended crossedTabs).sessionChan 1 = some 0 ∧
      forall c', (attended crossedTabs).sessionChan c' = some 0 -> c' = 1 := by
  have hagents : Machine.AllSteps extend AgentSends [] crossedTabs :=
    ⟨trivial, trivial, trivial, trivial,
      ⟨_, rfl, rfl, introduced_initResponse 1⟩, trivial, trivial,
      ⟨_, rfl, rfl, introduced_initResponse 1⟩, trivial⟩
  have hsession : (attended crossedTabs).sessionChan 1 = some 0 := by decide
  exact ⟨hsession, (sessions_private crossedTabs hagents 1 0 hsession).right⟩

/-!
## Taking turns
-/

theorem mem_of_connectIds {id : Int32} (h : id ∈ connectIds events) :
    AttachEvent.connect id ∈ events := by
  rcases List.mem_filterMap.mp h with ⟨event, hmem, hevent⟩
  cases event with
  | connect id' =>
      cases hevent
      exact hmem
  | attach c succeeds => cases hevent
  | subscribe c => cases hevent
  | read channel msg => cases hevent

theorem connect_registers (id : Int32) :
    (AttachEvent.connect id).registers id = true := by
  simp [AttachEvent.registers, AttachEvent.remote, RemoteEvent.registers]

theorem connect_le (hturns : Machine.AllSteps extend TakesTurns [] events)
    (hbefore : before ++ after <+: events) {id : Int32} {k : Nat}
    (hid : (connectIds (before ++ after))[k]? = some id)
    (hattached : Returned k Attach.attached (attended (before ++ after)))
    (hnil : messagesFrom (before ++ after) k = [])
    (hconnect : before ++ [AttachEvent.connect id] <+: before ++ after) :
    (connectIds before).length ≤ k := by
  by_contra hlt
  have hk := hid
  rw [connectIds_append, List.getElem?_append_left (Nat.lt_of_not_le hlt)] at hk
  rcases exists_connection hk with ⟨conn, hconn, hsame⟩
  rcases holds_before hturns (hconnect.trans hbefore) k conn hconn hsame with
    hfailed | hread
  · have hstill : Returned k Attach.failed (attended (before ++ after)) :=
      Returned.append (by decide) ⟨conn, hconn, hfailed⟩ after
    rcases hstill with ⟨failed, hfailed', hfailed⟩
    rcases hattached with ⟨attached, hattached', hattached⟩
    rw [hfailed'] at hattached'
    cases hattached'
    rw [hfailed] at hattached
    cases hattached
  · exact messagesFrom_ne_nil (List.prefix_append before after) hread hnil

theorem le_of_quiet {c k : Nat} {id : Int32}
    (hc : (connectIds before).length = c)
    (hquiet : AttachEvent.connect id ∉ between)
    (hk : (connectIds (before ++ AttachEvent.connect id :: between))[k]? =
      some id) : k ≤ c := by
  by_contra hlt
  apply hquiet
  apply mem_of_connectIds
  have hsplit : connectIds (before ++ AttachEvent.connect id :: between) =
      (connectIds before ++ [id]) ++ connectIds between := by
    rw [connectIds_append]
    simp [connectIds]
  rw [hsplit, List.getElem?_append_right] at hk
  · exact List.mem_of_getElem? hk
  · rw [List.length_append, List.length_singleton, hc]
    exact Nat.lt_of_not_le hlt

theorem answers_own (hagents : Machine.AllSteps extend AgentSends [] events)
    (hturns : Machine.AllSteps extend TakesTurns [] events) {c k : Nat}
    (h : Answers events c k) : k = c := by
  rcases h with ⟨before, msg, after, hevents, htype, hwaits⟩
  have hread : before ++ [AttachEvent.read k msg] <+: events :=
    ⟨after, by rw [hevents]; simp⟩
  have hbegin := (List.prefix_append before _).trans hread
  rcases agent_init hagents hread htype with ⟨hnil, hid, hattached⟩
  rcases hwaits with ⟨earlier, between, rfl, hc, hquiet⟩
  apply le_antisymm
  · apply le_of_quiet hc _ hid
    intro hmem
    have hregisters := hquiet _ hmem
    rw [connect_registers] at hregisters
    cases hregisters
  · rw [← hc]
    exact connect_le hturns hbegin hid hattached hnil ⟨between, by simp⟩

theorem read_of_messagesFrom {k : Nat} (h : messagesFrom events k ≠ []) :
    exists before msg after,
      events = before ++ AttachEvent.read k msg :: after ∧
        messagesFrom before k = [] := by
  induction events using List.reverseRecOn with
  | nil => exact absurd rfl h
  | append_singleton events event ih =>
      by_cases hold : messagesFrom events k = []
      · have hlast : messagesFrom [event] k ≠ [] := by
          rw [messagesFrom_append, hold] at h
          exact h
        cases event with
        | connect id => exact absurd rfl hlast
        | attach c succeeds => exact absurd rfl hlast
        | subscribe c => exact absurd rfl hlast
        | read channel msg =>
            have hsame : channel = k := by
              by_contra hne
              exact hlast (by simp [messagesFrom, hne])
            subst hsame
            exact ⟨events, msg, [], rfl, hold⟩
      · rcases ih hold with ⟨before, msg, after, rfl, hnil⟩
        exact ⟨before, msg, after ++ [event], by simp, hnil⟩

theorem introduction (hagents : Machine.AllSteps extend AgentSends [] events)
    {k : Nat} (h : messagesFrom events k ≠ []) :
    exists before msg after,
      events = before ++ AttachEvent.read k msg :: after ∧
        before ++ [AttachEvent.read k msg] <+: events ∧
          msg.type = ResponseType.init := by
  rcases read_of_messagesFrom h with ⟨before, msg, after, hevents, hnil⟩
  have hread : before ++ [AttachEvent.read k msg] <+: events :=
    ⟨after, by rw [hevents]; simp⟩
  refine ⟨before, msg, after, hevents, hread, ?_⟩
  rcases holds_before hagents hread with ⟨conn, _, _, hintroduced⟩
  rw [hnil] at hintroduced
  rcases introduced_concat hintroduced with ⟨_, rfl⟩ | ⟨⟨_, hmore⟩, _⟩
  · rfl
  · cases hmore

/-- An agent that introduces itself answers its own tab. -/
theorem own_answers (hagents : Machine.AllSteps extend AgentSends [] events)
    (hturns : Machine.AllSteps extend TakesTurns [] events) {c : Nat}
    (h : messagesFrom events c ≠ []) : Answers events c c := by
  rcases introduction hagents h with ⟨before, msg, after, hevents, hread, htype⟩
  have hbegin := (List.prefix_append before _).trans hread
  refine ⟨before, msg, after, hevents, htype, ?_⟩
  rcases agent_init hagents hread htype with ⟨hnil, hid, hattached⟩
  rcases exists_connect hid with ⟨earlier, between, rfl, hc⟩
  refine ⟨earlier, between, rfl, hc, ?_⟩
  have hconnect : AttachEvent.connect msg.id ∉ between := by
    intro hmem
    rcases List.append_of_mem hmem with ⟨first, rest, rfl⟩
    have hsplit : earlier ++ AttachEvent.connect msg.id ::
        (first ++ AttachEvent.connect msg.id :: rest) =
          (earlier ++ AttachEvent.connect msg.id :: first) ++
            AttachEvent.connect msg.id :: rest := by simp
    rw [hsplit] at hbegin hid hattached hnil
    have hle := connect_le hturns hbegin hid hattached hnil ⟨rest, by simp⟩
    rw [connectIds_append, List.length_append, hc] at hle
    simp [connectIds] at hle
  intro event hmem
  by_contra hregisters
  rw [Bool.not_eq_false] at hregisters
  cases event with
  | connect id =>
      have hsame : id = msg.id := by
        simpa [AttachEvent.registers, AttachEvent.remote,
          RemoteEvent.registers] using hregisters
      rw [hsame] at hmem
      exact hconnect hmem
  | attach c' succeeds => cases hregisters
  | subscribe c' => cases hregisters
  | read k msg' =>
      have hboth : msg'.type = ResponseType.init ∧ msg'.id = msg.id := by
        simpa [AttachEvent.registers, AttachEvent.remote,
          RemoteEvent.registers] using hregisters
      rcases List.append_of_mem hmem with ⟨first, rest, rfl⟩
      have hread' : (earlier ++ AttachEvent.connect msg.id :: first) ++
          [AttachEvent.read k msg'] <+: events :=
        List.IsPrefix.trans ⟨rest, by simp⟩ hbegin
      rcases agent_init hagents hread' hboth.left with
        ⟨hnil', hid', hattached'⟩
      rw [hboth.right] at hid'
      have hquiet : AttachEvent.connect msg.id ∉ first :=
        fun hfirst => hconnect (List.mem_append_left _ hfirst)
      -- of the agents of the process only the tab's own is still silent
      have hle := le_of_quiet hc hquiet hid'
      have hge := connect_le hturns
        ((List.prefix_append _ _).trans hread') hid' hattached' hnil'
        ⟨first, by simp⟩
      rw [hc] at hge
      have hsame := le_antisymm hle hge
      subst hsame
      have hheard : messagesFrom (earlier ++ AttachEvent.connect msg.id ::
          first ++ [AttachEvent.read k msg']) k ≠ [] := by
        rw [messagesFrom_read]
        exact List.append_ne_nil_of_right_ne_nil _ (List.cons_ne_nil _ _)
      exact messagesFrom_ne_nil ⟨rest, by simp⟩ hheard hnil

/-- Where each process is connected to again only when the agents of its earlier
tabs have introduced themselves, a tab that has subscribed gets a session as
soon as its own agent has introduced itself, and the session is on that agent's
channel. -/
theorem sessions_inTurn (events : List AttachEvent)
    (hagents : Machine.AllSteps extend AgentSends [] events)
    (hturns : Machine.AllSteps extend TakesTurns [] events) (c k : Nat) :
    (attended events).sessionChan c = some k <->
      k = c ∧ messagesFrom events c ≠ [] ∧
        exists conn, (attended events).connections[c]? = some conn ∧
          conn.subscribed = true := by
  rw [sessionChan_iff]
  constructor
  · intro h
    rcases h with ⟨hsubscribed, hanswers⟩
    have hown := answers_own hagents hturns hanswers
    subst hown
    refine ⟨rfl, ?_, hsubscribed⟩
    rcases hanswers with ⟨before, msg, after, rfl, _⟩
    rw [messagesFrom_append]
    simp [messagesFrom]
  · intro h
    rcases h with ⟨rfl, hheard, hsubscribed⟩
    exact ⟨hsubscribed, own_answers hagents hturns hheard⟩

/-- Two tabs of process 1 in turn, and one of process 2 between them. -/
def tabsInTurn : List AttachEvent :=
  [AttachEvent.connect 1, AttachEvent.connect 2, AttachEvent.attach 0 true,
    AttachEvent.read 0 (initResponse 1), AttachEvent.connect 1,
    AttachEvent.attach 2 true, AttachEvent.subscribe 2,
    AttachEvent.subscribe 0, AttachEvent.read 2 (initResponse 1)]

theorem tabsInTurn_agents : Machine.AllSteps extend AgentSends [] tabsInTurn :=
  ⟨trivial, trivial, trivial, ⟨_, rfl, rfl, introduced_initResponse 1⟩, trivial,
    trivial, trivial, trivial, ⟨_, rfl, rfl, introduced_initResponse 1⟩,
    trivial⟩

theorem tabsInTurn_turns :
    Machine.AllSteps extend TakesTurns [] tabsInTurn := by
  refine ⟨?_, ?_, trivial, trivial, ?_, trivial, trivial, trivial, trivial,
    trivial⟩
  · intro k conn hconn
    cases hconn
  · intro k conn hconn hid
    match k, hconn with
    | 0, rfl => cases hid
  · intro k conn hconn hid
    match k, hconn with
    | 0, rfl => exact Or.inr (List.cons_ne_nil _ _)
    | 1, rfl => cases hid

theorem sessions_inTurn_thrice :
    (attended tabsInTurn).sessionChan 0 = some 0 ∧
      (attended tabsInTurn).sessionChan 1 ≠ some 1 ∧
      (attended tabsInTurn).sessionChan 2 = some 2 := by
  have hall := sessions_inTurn tabsInTurn tabsInTurn_agents tabsInTurn_turns
  refine ⟨(hall 0 0).mpr ⟨rfl, by decide, _, rfl, rfl⟩, ?_,
    (hall 2 2).mpr ⟨rfl, by decide, _, rfl, rfl⟩⟩
  intro hsession
  exact ((hall 1 1).mp hsession).right.left rfl

/-!
## One tab for each process

Then nothing registers a process after its agent has introduced itself, so that
each result finds the instance of its own channel.
-/

def remotes (events : List AttachEvent) : List RemoteEvent :=
  events.filterMap AttachEvent.remote

theorem remotes_append (before after : List AttachEvent) :
    remotes (before ++ after) = remotes before ++ remotes after :=
  List.filterMap_append

theorem received_remotes (events : List AttachEvent) (k : Nat) :
    received (remotes events) k = (messagesFrom events k).filter
      (fun msg => msg.type = ResponseType.profInfo) := by
  induction events using List.reverseRecOn with
  | nil => rfl
  | append_singleton events event ih =>
      rw [messagesFrom_append, List.filter_append, ← ih, remotes_append,
        received, List.filterMap_append]
      congr 1
      cases event with
      | connect id => rfl
      | attach c succeeds => rfl
      | subscribe c => rfl
      | read channel msg =>
          by_cases hk : channel = k <;>
            cases htype : msg.type <;>
              simp [remotes, AttachEvent.remote, messagesFrom, hk, htype]

theorem mem_remotes_read {k : Nat} {msg : Response}
    (h : RemoteEvent.read k msg ∈ remotes events) :
    messagesFrom events k ≠ [] := by
  rcases List.mem_filterMap.mp h with ⟨event, hmem, hevent⟩
  cases event with
  | connect id => cases hevent
  | attach c succeeds => cases hevent
  | subscribe c => cases hevent
  | read channel msg' =>
      cases hevent
      apply List.ne_nil_of_mem
      exact List.mem_filterMap.mpr ⟨_, hmem, if_pos rfl⟩

theorem lastRegistration_append {id : Int32} {xs ys : List RemoteEvent}
    {event : RemoteEvent} (hevent : event.registers id = true)
    (hys : forall event', event' ∈ ys -> event'.registers id = false) :
    lastRegistration id (xs ++ event :: ys) = some event := by
  unfold lastRegistration
  have hnil : ys.filter (RemoteEvent.registers id) = [] := by
    apply List.filter_eq_nil_iff.mpr
    intro event' hmem
    rw [hys event' hmem]
    exact Bool.false_ne_true
  rw [List.filter_append, List.filter_cons_of_pos hevent, hnil]
  exact List.getLast?_concat

theorem agent_profInfo (hagents : Machine.AllSteps extend AgentSends [] events)
    {k : Nat} {msg : Response}
    (hread : before ++ [AttachEvent.read k msg] <+: events)
    (htype : msg.type = ResponseType.profInfo) :
    exists earlier first rest,
      before = earlier ++ AttachEvent.read k first :: rest ∧
        earlier ++ [AttachEvent.read k first] <+: events ∧
        first.type = ResponseType.init ∧ first.id = msg.id ∧
          (connectIds earlier)[k]? = some msg.id := by
  have hbegin := (List.prefix_append before _).trans hread
  rcases holds_before hagents hread with ⟨conn, hconn, _, hintroduced⟩
  rcases introduced_concat hintroduced with
    ⟨_, rfl⟩ | ⟨⟨results, hmessages⟩, hid, _⟩
  · cases htype
  · have hheard : messagesFrom before k ≠ [] := by
      rw [hmessages]
      exact List.cons_ne_nil _ _
    rcases introduction (hagents.of_prefix hbegin) hheard with
      ⟨earlier, first, rest, rfl, hfirst, hinit⟩
    have hfirst' := hfirst.trans hbegin
    have hk := (agent_init hagents hfirst' hinit).right.left
    have hearlier := connectIds_mono
      (List.prefix_append earlier (AttachEvent.read k first :: rest))
    have hconn' := connection_id hconn
    rw [getElem?_of_isPrefix hearlier hk, Option.some.injEq] at hconn'
    have hsame : first.id = msg.id := hconn'.trans hid.symm
    refine ⟨earlier, first, rest, rfl, hfirst', hinit, hsame, ?_⟩
    rw [← hsame]
    exact hk

theorem allowed_of_agents
    (hagents : Machine.AllSteps extend AgentSends [] events)
    {event : AttachEvent} (hnext : before ++ [event] <+: events)
    {remote : RemoteEvent} (hremote : event.remote = some remote) :
    Allowed (remotes before) remote := by
  cases event with
  | connect id =>
      cases hremote
      exact trivial
  | attach c succeeds => cases hremote
  | subscribe c => cases hremote
  | read k msg =>
      cases hremote
      cases htype : msg.type with
      | init =>
          have hnew : forall msg',
              RemoteEvent.read k msg' ∉ remotes before := by
            intro msg' hmem
            exact mem_remotes_read hmem (agent_init hagents hnext htype).left
          simpa [Allowed, htype] using hnew
      | profInfo =>
          have hinitialised : Initialised (remotes before) k msg.id := by
            rcases agent_profInfo hagents hnext htype with
              ⟨earlier, first, rest, rfl, _, hinit, hid, hk⟩
            refine ⟨remotes earlier, first, ?_, hinit, hid, ?_⟩
            · rw [remotes_append]
              exact (List.prefix_append_right_inj _).mpr ⟨remotes rest, rfl⟩
            · apply List.mem_filterMap.mpr
              exact ⟨_, mem_of_connectIds (List.mem_of_getElem? hk), rfl⟩
          simpa [Allowed, htype] using hinitialised

/-- With one connection to each process, nothing takes the process from an agent
that has introduced itself. -/
theorem undisturbed_of_agents
    (hagents : Machine.AllSteps extend AgentSends [] events)
    (hone : (connectIds events).Nodup) {event : AttachEvent}
    (hnext : before ++ [event] <+: events) {remote : RemoteEvent}
    (hremote : event.remote = some remote) :
    Undisturbed (remotes before) remote := by
  have hbegin := (List.prefix_append before _).trans hnext
  have hone' := hone.sublist (connectIds_mono hbegin).sublist
  cases event with
  | connect id =>
      cases hremote
      exact trivial
  | attach c succeeds => cases hremote
  | subscribe c => cases hremote
  | read k msg =>
      cases hremote
      intro htype
      rcases agent_profInfo hagents hnext htype with
        ⟨earlier, first, rest, rfl, hfirst, hinit, hid, hk⟩
      refine ⟨first, ?_⟩
      rw [remotes_append]
      apply lastRegistration_append
      · simp [RemoteEvent.registers, hinit, hid]
      · intro event' hmem
        by_contra hregisters
        rw [Bool.not_eq_false] at hregisters
        rcases List.mem_filterMap.mp hmem with ⟨event, hevent, hremote⟩
        cases event with
        | connect id =>
            cases hremote
            have hsame : id = msg.id := by
              simpa [RemoteEvent.registers] using hregisters
            rw [connectIds_append] at hone'
            apply List.disjoint_of_nodup_append hone' (List.mem_of_getElem? hk)
            rw [← hsame]
            exact List.mem_filterMap.mpr
              ⟨_, List.mem_cons_of_mem _ hevent, rfl⟩
        | attach c succeeds => cases hremote
        | subscribe c => cases hremote
        | read k' msg' =>
            cases hremote
            have hboth : msg'.type = ResponseType.init ∧ msg'.id = msg.id := by
              simpa [RemoteEvent.registers] using hregisters
            rcases List.append_of_mem hevent with ⟨middle, last, rfl⟩
            have hread : (earlier ++ AttachEvent.read k first :: middle) ++
                [AttachEvent.read k' msg'] <+: events :=
              List.IsPrefix.trans ⟨last, by simp⟩ hbegin
            rcases agent_init hagents hread hboth.left with ⟨hnil, hk', _⟩
            rw [hboth.right] at hk'
            have hkk := getElem?_of_isPrefix (connectIds_mono
              (List.prefix_append earlier (AttachEvent.read k first :: middle)))
              hk
            have hlater := connectIds_mono
              ((List.prefix_append _ _).trans hread)
            have hlt := (List.getElem?_eq_some_iff.mp hkk).1
            have hsame := (List.getElem?_inj hlt
              (hone.sublist hlater.sublist)).mp (hkk.trans hk'.symm)
            subst hsame
            -- its agent has been heard before
            have hheard : messagesFrom
                (earlier ++ [AttachEvent.read k first]) k ≠ [] := by
              rw [messagesFrom_read]
              exact List.append_ne_nil_of_right_ne_nil _ (List.cons_ne_nil _ _)
            exact messagesFrom_ne_nil ⟨middle, by simp⟩ hheard hnil

theorem delivered_of_agents
    (hagents : Machine.AllSteps extend AgentSends [] events)
    (hone : (connectIds events).Nodup) : Delivered (remotes events) := by
  have hall : forall before, before <+: events ->
      Tracks (remotes before) (serve (remotes before)) ∧
        Delivered (remotes before) := by
    intro before
    induction before using List.reverseRecOn with
    | nil => exact fun _ => ⟨tracks_initial, delivered_nil⟩
    | append_singleton before event ih =>
        intro hnext
        rcases ih ((List.prefix_append before _).trans hnext) with
          ⟨htracks, hdelivered⟩
        rw [remotes_append]
        cases hremote : event.remote with
        | none =>
            have hnone : remotes [event] = [] := by
              simp [remotes, hremote]
            rw [hnone, List.append_nil]
            exact ⟨htracks, hdelivered⟩
        | some remote =>
            have hsome : remotes [event] = [remote] := by
              simp [remotes, hremote]
            have hallowed := allowed_of_agents hagents hnext hremote
            rw [hsome]
            constructor
            · rw [← remember, serve_remember]
              exact htracks.step hallowed
            · exact (delivered_remember_iff htracks hdelivered hallowed).mpr
                (undisturbed_of_agents hagents hone hnext hremote)
  exact (hall events (List.prefix_refl _)).right

theorem takesTurns_of_nodup (hone : (connectIds events).Nodup) :
    Machine.AllSteps extend TakesTurns [] events := by
  apply Machine.allSteps_of_run
  intro before event hnext
  rw [run_extend, List.nil_append]
  cases event with
  | connect id =>
      intro k conn hconn hid
      rcases hnext with ⟨after, rfl⟩
      rw [connectIds_append, connectIds_append] at hone
      have hdisjoint := List.disjoint_of_nodup_append hone.of_append_left
      have hmem := List.mem_of_getElem? (connection_id hconn)
      rw [hid] at hmem
      exact absurd List.mem_cons_self (hdisjoint hmem)
  | attach c succeeds => exact trivial
  | subscribe c => exact trivial
  | read channel msg => exact trivial

/-- Where each process is connected to once, every tab that has subscribed gets
its own agent when that has introduced itself, and its instance has published
all results that were read from this agent and no others. -/
theorem sessions_delivered (events : List AttachEvent)
    (hagents : Machine.AllSteps extend AgentSends [] events)
    (hone : (connectIds events).Nodup) (c : Nat) (conn : Connection)
    (hconn : (attended events).connections[c]? = some conn)
    (hsubscribed : conn.subscribed = true)
    (hheard : messagesFrom events c ≠ []) :
    exists i, conn.session = some i ∧
      (attended events).instances[i]? = some
        { chan := c
          response := (messagesFrom events c).filter
            (fun msg => msg.type = ResponseType.profInfo) } := by
  have hsession : (attended events).sessionChan c = some c :=
    (sessionChan_iff events c c).mpr ⟨⟨conn, hconn, hsubscribed⟩,
      own_answers hagents (takesTurns_of_nodup hone) hheard⟩
  unfold JVMAttachService.sessionChan at hsession
  rw [hconn, Option.bind_some] at hsession
  rcases Option.bind_eq_some_iff.mp hsession with ⟨i, hi, hchan⟩
  rcases Option.map_eq_some_iff.mp hchan with ⟨jvm, hjvm, hc⟩
  refine ⟨i, hi, ?_⟩
  have hservice : (attended events).instances =
      (serve (remotes events)).instances :=
    congrArg JVMRemoteService.instances (attended_service events)
  have hpublished := (delivered_of_agents hagents hone).published jvm (by
    rw [← hservice]
    exact List.mem_of_getElem? hjvm)
  rw [hc, received_remotes] at hpublished
  rw [hjvm, ← hpublished, ← hc]

def noInfo (id : Int32) : Response :=
  { id := id, type := ResponseType.profInfo, profInfo := some
      { callsTotal := 0, callsNonJava := 0, callsGc := 0, callsDeopt := 0,
        callsUnknown := 0, methods := [], samples := [], methodInfos := [] } }

/-- A tab that is subscribed late, beside one whose attach fails. -/
def tabsApart : List AttachEvent :=
  [AttachEvent.connect 1, AttachEvent.attach 0 true, AttachEvent.connect 2,
    AttachEvent.read 0 (initResponse 1), AttachEvent.attach 1 false,
    AttachEvent.subscribe 0, AttachEvent.read 0 (noInfo 1)]

theorem sessions_delivered_apart :
    exists i : Nat, (attended tabsApart).instances[i]? =
      some { chan := 0, response := [noInfo 1] } := by
  have hagents : Machine.AllSteps extend AgentSends [] tabsApart :=
    ⟨trivial, trivial, trivial, ⟨_, rfl, rfl, introduced_initResponse 1⟩,
      trivial, trivial, ⟨_, rfl, rfl, [noInfo 1], rfl, by
        intro message hmem
        rw [List.mem_singleton.mp hmem]
        exact ⟨rfl, rfl, _, rfl⟩⟩, trivial⟩
  rcases sessions_delivered tabsApart hagents (by decide) 0 _ rfl rfl
    (by decide) with ⟨i, _, hjvm⟩
  exact ⟨i, hjvm⟩

end EndToEnd
end Franky
