import Franky.EndToEnd.System

/-!
# Runs of the plugin and its agents

Whatever the order in which tabs, connections and agents get on, every agent
does what its own tab has asked for.  Until a tab gets a result that it cannot
show, it shows, while it is open, what its own agent has sampled between a click
on start and the click on stop that is answered last.
-/

namespace Franky
namespace EndToEnd

open Foundation
open Foundation.Sorting
open Protocol
open Agent
open Plugin

/-!
## The results that have been read
-/

section Results

variable {history : List AttachEvent}

theorem resultsFrom_quiet {event : AttachEvent}
    (hquiet : forall k, messagesFrom [event] k = []) :
    System.resultsFrom (history ++ [event]) = System.resultsFrom history := by
  funext k
  unfold System.resultsFrom
  rw [messagesFrom_append, hquiet, List.append_nil]

theorem resultsFrom_read (k : Nat) (msg : Response) :
    System.resultsFrom (history ++ [AttachEvent.read k msg]) =
      match msg.type with
      | ResponseType.init => System.resultsFrom history
      | ResponseType.profInfo =>
          Function.update (System.resultsFrom history) k
            (System.resultsFrom history k ++ [msg]) := by
  funext k'
  unfold System.resultsFrom
  rw [messagesFrom_append, List.filter_append]
  rcases eq_or_ne k' k with rfl | hne
  · cases htype : msg.type <;> simp [messagesFrom, htype]
  · cases htype : msg.type <;> simp [messagesFrom, hne, hne.symm]

theorem results_of_introduced {pid : Int32} {sent : List Response}
    (h : Introduced pid sent) :
    results sent = (sent.filter (fun msg =>
      msg.type = ResponseType.profInfo)).map getProfInfo := by
  rcases h with ⟨rest, rfl, hrest⟩
  have hall : forall rest : List Response, (forall msg, msg ∈ rest ->
      msg.id = pid ∧ msg.type = ResponseType.profInfo ∧
        exists info, msg.profInfo = some info) ->
      results rest = (rest.filter (fun msg =>
        msg.type = ResponseType.profInfo)).map getProfInfo := by
    intro rest hrest
    induction rest with
    | nil => rfl
    | cons msg rest ih =>
        rcases hrest msg List.mem_cons_self with ⟨_, htype, info, hinfo⟩
        have hnext := ih (fun msg' hmem =>
          hrest msg' (List.mem_cons_of_mem _ hmem))
        unfold results at hnext ⊢
        rw [List.filterMap_cons_some hinfo, hnext,
          List.filter_cons_of_pos (by simpa using htype), List.map_cons,
          getProfInfo, hinfo]
        rfl
  exact hall rest hrest

end Results

/-!
## Every run
-/

namespace System

variable {qsort : Qsort maxCalltraces}
  {parse : List UInt8 -> Option RequestType} {s : System}

theorem sound_initial :
    initial.Sound qsort parse (resultsFrom initial.history) where
  sends := trivial
  once := List.nodup_nil
  opened := by
    intro c t ht
    cases ht
  tabs := by
    intro c t ht
    cases ht
  loaded := by
    intro k agent hagent
    cases hagent
  heard := fun _ => List.nil_prefix
  written := fun _ => rfl
  served := by
    intro k agent hagent
    cases hagent

theorem Sound.quiet (h : s.Sound qsort parse (resultsFrom s.history))
    {event : AttachEvent} (hevent : AgentSends s.history event)
    (hids : connectIds [event] = [])
    (hquiet : forall k, messagesFrom [event] k = []) (onUi : Bool) :
    (s.attend event onUi).Sound qsort parse
      (resultsFrom (s.attend event onUi).history) := by
  have hsame : resultsFrom (s.attend event onUi).history =
      resultsFrom s.history := resultsFrom_quiet hquiet
  rw [hsame]
  exact h.attend_quiet hevent hids hquiet onUi

theorem Sound.read (h : s.Sound qsort parse (resultsFrom s.history))
    (hqsort : Contract qsort) (hparse : ParsesRequests parse) (k : Nat) :
    (s.step qsort parse (SystemEvent.read k)).Sound qsort parse
      (resultsFrom (s.step qsort parse (SystemEvent.read k)).history) := by
  cases hnext : s.nextMessage qsort parse k with
  | none =>
      simp only [System.step, hnext]
      exact h
  | some msg =>
      rcases exists_of_nextMessage hnext with ⟨agent, hagent, hmsg⟩
      have hattended := h.attend_read hparse hagent hmsg
      have hresults := @resultsFrom_read s.history k msg
      simp only [System.step, hnext]
      cases htype : msg.type with
      | init =>
          rw [htype] at hresults
          change Sound _ _ (resultsFrom (s.history ++ _)) _
          rw [hresults]
          exact hattended
      | profInfo =>
          rw [htype] at hresults
          change Sound _ _ (resultsFrom (s.history ++ _)) _
          rw [hresults]
          exact hattended.publish rfl htype
            (hattended.sessionChan_of_result hqsort hparse hagent
              (List.mem_of_getElem? hmsg) htype)

theorem Sound.step (h : s.Sound qsort parse (resultsFrom s.history))
    (hqsort : Contract qsort) (hparse : ParsesRequests parse)
    {event : SystemEvent} (hallowed : s.Allows event) :
    (s.step qsort parse event).Sound qsort parse
      (resultsFrom (s.step qsort parse event).history) := by
  cases event with
  | connect id heap parent =>
      rcases hallowed with ⟨hnew, hparent, calls, hcalls⟩
      have hsame : resultsFrom (s.history ++ [AttachEvent.connect id]) =
          resultsFrom s.history := resultsFrom_quiet (fun _ => rfl)
      change Sound _ _ (resultsFrom (s.history ++ _)) _
      rw [hsame]
      apply h.connect hnew hcalls hparent
      have hnone : s.agents (connectIds s.history).length = none := by
        by_contra hsome
        rcases Option.ne_none_iff_exists'.mp hsome with ⟨agent, hagent⟩
        have hid := (h.loaded _ agent hagent).right.right
        rw [List.getElem?_eq_none (Nat.le_refl _)] at hid
        cases hid
      unfold resultsFrom
      rw [h.messages_of_none hnone]
      rfl
  | attach c succeeds =>
      have hevent : AgentSends s.history (AttachEvent.attach c succeeds) :=
        trivial
      exact h.quiet hevent rfl (fun _ => rfl) true
  | subscribe c =>
      have hevent : AgentSends s.history (AttachEvent.subscribe c) := trivial
      exact h.quiet hevent rfl (fun _ => rfl) false
  | load c process names vm =>
      simp only [System.step]
      split
      · next conn hconn hnone =>
          split
          · next hattach => exact h.load hconn hattach hnone hallowed names vm
          · exact h
      · exact h
  | read k => exact h.read hqsort hparse k
  | act c action =>
      simp only [System.step]
      split
      · exact h
      · next t htab => exact h.act htab action
  | sample k outcome =>
      simp only [System.step]
      split
      · exact h
      · next agent hagent =>
          split
          · next hrunning => exact h.sample hqsort hparse hagent hrunning outcome
          · exact h
  | serve k chunks =>
      simp only [System.step]
      split
      · exact h
      · next agent hagent =>
          split
          · exact h
          · next type htype =>
              split
              · next hchunks => exact h.serve hparse hagent htype hchunks
              · exact h

theorem sound_run (hqsort : Contract qsort) (hparse : ParsesRequests parse)
    {events : List SystemEvent}
    (hallowed : Machine.AllSteps (System.step qsort parse) Allows initial
      events) :
    (Machine.run (System.step qsort parse) initial events).Sound qsort parse
      (resultsFrom
        (Machine.run (System.step qsort parse) initial events).history) :=
  hallowed.invariant
    (fun (s : System) _ hok (h : s.Sound qsort parse (resultsFrom s.history)) =>
      h.step hqsort hparse hok) sound_initial

/-!
## Agents and their tabs
-/

theorem length_stopReports (samples : Nat -> List (Option AsgctCallTrace))
    (n : Nat) (types : List RequestType) :
    (stopReports samples n types).length =
      types.count RequestType.stopProfiling := by
  induction types generalizing n with
  | nil => rfl
  | cons type types ih =>
      cases type with
      | startProfiling =>
          rw [stopReports, ih, List.count_cons_of_ne (by decide)]
          intro htypes
          cases htypes
      | stopProfiling =>
          rw [stopReports, List.length_cons, ih, List.count_cons_self]
      | detach =>
          rw [stopReports, ih, List.count_cons_of_ne (by decide)]
          intro htypes
          cases htypes

/-- The results that have been read are the first ones of the agent. -/
theorem Sound.results_isPrefix (h : s.Sound qsort parse (resultsFrom s.history))
    (hparse : ParsesRequests parse) {c : Nat} {agent : LoadedAgent}
    (hagent : s.agents c = some agent) :
    (resultsFrom s.history c).map getProfInfo <+:
      results (agent.sent qsort parse) := by
  have hheard := h.heard c
  rw [sentBy_of_agent hagent] at hheard
  rw [results_of_introduced
    ((h.loaded c agent hagent).left.introduced qsort hparse)]
  exact (hheard.filter _).map _

/-- The agent does what the tab has asked for: it has read what the tab has
sent first, and when it has read everything, it runs exactly while the stop
button is enabled.  No stop is answered twice, and each is when all has been
read. -/
structure InStep (qsort : Qsort maxCalltraces)
    (parse : List UInt8 -> Option RequestType) (s : System) (c : Nat)
    (t : JvmTab) (agent : LoadedAgent) : Prop where
  process : (connectIds s.history)[c]? = some agent.session.pid
  served : agent.served <+: requestsOf t
  running : agent.served = requestsOf t ->
    agent.running qsort parse = t.stopButton
  answered : (resultsFrom s.history c).length ≤
    (requestsOf t).count RequestType.stopProfiling
  caughtUp : agent.served = requestsOf t ->
    messagesFrom s.history c = agent.sent qsort parse ->
      (resultsFrom s.history c).length =
        (requestsOf t).count RequestType.stopProfiling

theorem Sound.inStep (h : s.Sound qsort parse (resultsFrom s.history))
    (hqsort : Contract qsort) (hparse : ParsesRequests parse) {c : Nat}
    {t : JvmTab} (htab : s.tabs c = some t) {agent : LoadedAgent}
    (hagent : s.agents c = some agent) : s.InStep qsort parse c t agent := by
  rcases h.loaded c agent hagent with ⟨hdriven, _, hid⟩
  have hturn := requestsOf_inTurn (h.tabs c t htab).alternating
  have hserved := h.served c agent hagent
  rw [h.written c, htab, Option.map_some, Option.getD_some] at hserved
  rcases hdriven.turn with ⟨running, hturn'⟩
  have hreports := (hdriven.answers hqsort hparse hturn').right.length_eq
  rw [length_stopReports] at hreports
  have hresults := h.results_isPrefix hparse hagent
  refine ⟨hid, hserved, ?_, ?_, ?_⟩
  · intro hall
    rw [← hall] at hturn
    exact (hdriven.answers hqsort hparse hturn).left
  · have hlength := hresults.length_le
    rw [List.length_map, ← hreports] at hlength
    exact hlength.trans (hserved.sublist.count_le _)
  · intro hall hmessages
    have hlength := congrArg List.length (results_of_introduced
      (hdriven.introduced qsort hparse))
    rw [List.length_map, ← hmessages, hmessages, ← hreports, hall] at hlength
    unfold resultsFrom
    rw [hmessages]
    exact hlength.symm

/-- The tab shows what its agent has sampled for the stop that was answered
last, if all the results before could be shown, and nothing any more once one
could not. -/
structure ShowsLatest (s : System) (c : Nat) (t : JvmTab) : Prop where
  nothing : resultsFrom s.history c = [] -> t.profilerPanel = none
  latest : forall n, (resultsFrom s.history c).length = n + 1 ->
    exists agent r, s.agents c = some agent ∧
      (stopReports agent.session.samples 0 agent.served)[n]? = some r ∧
      ((forall msg, msg ∈ (resultsFrom s.history c).take n ->
          canShow msg = true) ->
        r.samples.length < 2 ^ 31 -> Distinguishable (javaTraces r.samples) ->
        exists panel, t.profilerPanel = some panel ∧
          CountsStacks panel.1 (javaTraces r.samples))
  ended : forall msg, msg ∈ resultsFrom s.history c -> canShow msg = false ->
    t.viewSubscribed = false ∧ t.profilerPanel = none

/-- A result that reports distinguishable stacks is shown as their flame
graph. -/
theorem latestPanel_reports (hqsort : Contract qsort) {earlier : List Response}
    (hearlier : forall msg, msg ∈ earlier -> canShow msg = true)
    {msg : Response} {r : Recorder}
    (hreports : Reports qsort r (getProfInfo msg))
    (hlength : r.samples.length < 2 ^ 31)
    (hstacks : Distinguishable (javaTraces r.samples)) :
    exists panel, latestPanel (earlier ++ [msg]) = some panel ∧
      CountsStacks panel.1 (javaTraces r.samples) := by
  rcases reports_flameTree hqsort hreports hlength hstacks with
    ⟨tree, hok, hcounts⟩
  refine ⟨(tree, associateBy (getProfInfo msg).methodInfos), ?_, hcounts⟩
  rw [latestPanel_concat, if_pos (List.all_eq_true.mpr hearlier),
    createComponent_eq hok]
  rfl

theorem Sound.showsLatest (h : s.Sound qsort parse (resultsFrom s.history))
    (hqsort : Contract qsort) (hparse : ParsesRequests parse) {c : Nat}
    {t : JvmTab} (htab : s.tabs c = some t) (hopen : t.closed = false) :
    s.ShowsLatest c t := by
  have hshown := (h.tabs c t htab).shown hopen
  have hview := (h.tabs c t htab).view hopen
  refine ⟨?_, ?_, ?_⟩
  · intro hnil
    rw [hshown, hnil]
    rfl
  · intro n hlength
    have hagent : s.agents c ≠ none := by
      intro hnone
      rw [resultsFrom, h.messages_of_none hnone] at hlength
      cases hlength
    rcases Option.ne_none_iff_exists'.mp hagent with ⟨agent, hagent⟩
    have hdriven := (h.loaded c agent hagent).left
    rcases hdriven.turn with ⟨running, hturn⟩
    have hreports := (hdriven.answers hqsort hparse hturn).right
    -- the result that was read last is the answer to the stop of its number
    have hlt : n < (resultsFrom s.history c).length := by lia
    have hlast : resultsFrom s.history c =
        (resultsFrom s.history c).take n ++ [(resultsFrom s.history c)[n]] := by
      rw [← List.take_succ_eq_append_getElem hlt, ← hlength, List.take_length]
    have hinfo : ((resultsFrom s.history c).map getProfInfo)[n]? =
        some (getProfInfo (resultsFrom s.history c)[n]) := by
      rw [List.getElem?_map, List.getElem?_eq_getElem hlt, Option.map_some]
    have hresult := getElem?_of_isPrefix (h.results_isPrefix hparse hagent)
      hinfo
    rcases List.getElem?_eq_some_iff.mp hresult with ⟨hlt', hresult'⟩
    have hlt'' := hlt'
    rw [← hreports.length_eq] at hlt''
    have hreport := hreports.get hlt'' hlt'
    rw [List.get_eq_getElem, List.get_eq_getElem, hresult'] at hreport
    refine ⟨agent, _, hagent, List.getElem?_eq_getElem hlt'', ?_⟩
    intro hearlier hfew hstacks
    rw [hshown, hlast]
    exact latestPanel_reports hqsort hearlier hreport hfew hstacks
  · intro msg hmem hfails
    have hend : (resultsFrom s.history c).all canShow = false := by
      rw [List.all_eq_false]
      exact ⟨msg, hmem, by rw [hfails]; exact Bool.false_ne_true⟩
    rw [hview, hshown, latestPanel, hend]
    exact ⟨rfl, if_neg Bool.false_ne_true⟩

theorem Sound.read_open (h : s.Sound qsort parse (resultsFrom s.history))
    (hparse : ParsesRequests parse) {c : Nat} {t : JvmTab}
    (htab : s.tabs c = some t) (hopen : t.closed = false) (k : Nat) :
    exists t', (s.step qsort parse (SystemEvent.read k)).tabs c = some t' ∧
      t'.closed = false := by
  cases hnext : s.nextMessage qsort parse k with
  | none =>
      simp only [System.step, hnext]
      exact ⟨t, htab, hopen⟩
  | some msg =>
      rcases exists_of_nextMessage hnext with ⟨agent, hagent, hmsg⟩
      have hattended := h.attend_read hparse hagent hmsg
      have hcalled : exists t', (s.attend (AttachEvent.read k msg) true).tabs c =
          some t' ∧ t'.closed = false := by
        refine ⟨_, Option.map_eq_some_iff.mpr ⟨t, htab, rfl⟩, ?_⟩
        split
        · exact sessionArrives_open hopen true
        · exact hopen
      simp only [System.step, hnext]
      cases msg.type with
      | init => exact hcalled
      | profInfo =>
          rcases hcalled with ⟨t', htab', hopen'⟩
          rcases (hattended.tabs c t' htab').owns hopen' with ⟨calls, howns⟩
          refine ⟨_, Option.map_eq_some_iff.mpr ⟨t', htab', rfl⟩, ?_⟩
          split
          · exact published_open howns hopen' msg
          · exact hopen'

end System

/-!
## Any order of events
-/

/-- In every run, each agent that is loaded does what the tab of its process
asks for. -/
theorem agents_inStep (qsort : Qsort maxCalltraces) (hqsort : Contract qsort)
    (parse : List UInt8 -> Option RequestType) (hparse : ParsesRequests parse)
    (events : List SystemEvent)
    (hallowed : Machine.AllSteps (System.step qsort parse) System.Allows
      System.initial events) (c : Nat) (t : JvmTab) (agent : LoadedAgent)
    (htab : (Machine.run (System.step qsort parse) System.initial
      events).tabs c = some t)
    (hagent : (Machine.run (System.step qsort parse) System.initial
      events).agents c = some agent) :
    (Machine.run (System.step qsort parse) System.initial events).InStep qsort
      parse c t agent :=
  (System.sound_run hqsort hparse hallowed).inStep hqsort hparse htab hagent

/-- Two tabs of two processes, and a click on start and one on stop in the first
of them. -/
def stopServed : List SystemEvent :=
  [SystemEvent.connect 1
      (Machine.run Heap.step Heap.initial callsBeforeTabs) 5,
    SystemEvent.attach 0 true,
    SystemEvent.connect 2
      (Machine.run Heap.step Heap.initial callsBeforeTabs) 5,
    SystemEvent.attach 1 true,
    SystemEvent.load 1 Process.initial (fun _ => ⟨"", "", ""⟩) VM.initial,
    SystemEvent.load 0 Process.initial (fun _ => ⟨"", "", ""⟩) VM.initial,
    SystemEvent.read 1, SystemEvent.read 0, SystemEvent.subscribe 0,
    SystemEvent.act 0 TabAction.dispatch,
    SystemEvent.act 0 TabAction.startClick,
    SystemEvent.serve 0 [requestFrame RequestType.startProfiling],
    SystemEvent.sample 0 (some callTrace), SystemEvent.subscribe 1,
    SystemEvent.act 0 TabAction.stopClick,
    SystemEvent.serve 0 [requestFrame RequestType.stopProfiling]]

theorem stopServed_allowed :
    Machine.AllSteps (System.step mergeQsort parseRequest) System.Allows
      System.initial (stopServed ++ [SystemEvent.read 0]) := by
  have hcalls : exists calls,
      Follows calls (Machine.run Heap.step Heap.initial callsBeforeTabs) :=
    ⟨callsBeforeTabs, follows_run
      ⟨by decide, by decide, by decide, by decide, by decide, trivial⟩⟩
  refine ⟨⟨List.not_mem_nil, by decide +kernel, hcalls⟩, trivial,
    ⟨by decide +kernel, by decide +kernel, hcalls⟩, trivial, rfl, rfl, ?_⟩
  exact ⟨trivial, trivial, trivial, trivial, trivial, trivial, trivial, trivial,
    trivial, trivial, trivial, trivial⟩

/-- The agent has read both requests, and has stopped again. -/
theorem agents_inStep_stopServed :
    exists t agent,
      (Machine.run (System.step mergeQsort parseRequest) System.initial
        stopServed).tabs 0 = some t ∧
      (Machine.run (System.step mergeQsort parseRequest) System.initial
        stopServed).agents 0 = some agent ∧
      agent.running mergeQsort parseRequest = t.stopButton := by
  have hallowed := stopServed_allowed.of_prefix (List.prefix_append _ _)
  rcases Option.isSome_iff_exists.mp (by decide +kernel :
    ((Machine.run (System.step mergeQsort parseRequest) System.initial
      stopServed).tabs 0).isSome = true) with ⟨t, htab⟩
  rcases Option.isSome_iff_exists.mp (by decide +kernel :
    ((Machine.run (System.step mergeQsort parseRequest) System.initial
      stopServed).agents 0).isSome = true) with ⟨agent, hagent⟩
  have hserved : ((Machine.run (System.step mergeQsort parseRequest)
      System.initial stopServed).agents 0).map LoadedAgent.served =
        ((Machine.run (System.step mergeQsort parseRequest) System.initial
          stopServed).tabs 0).map requestsOf := by
    decide +kernel
  rw [htab, hagent] at hserved
  have hstep := agents_inStep mergeQsort mergeQsort_contract parseRequest
    (by intro type; cases type <;> rfl) stopServed hallowed 0 t agent htab
    hagent
  exact ⟨t, agent, htab, hagent, hstep.running (Option.some.inj hserved)⟩

/-- In every run, each open tab shows what its own agent has sampled for the
stop that was answered last, and nothing before the first answer and after one
that could not be shown. -/
theorem tabs_showLatest (qsort : Qsort maxCalltraces) (hqsort : Contract qsort)
    (parse : List UInt8 -> Option RequestType) (hparse : ParsesRequests parse)
    (events : List SystemEvent)
    (hallowed : Machine.AllSteps (System.step qsort parse) System.Allows
      System.initial events) (c : Nat) (t : JvmTab)
    (htab : (Machine.run (System.step qsort parse) System.initial
      events).tabs c = some t) (hopen : t.closed = false) :
    (Machine.run (System.step qsort parse) System.initial
      events).ShowsLatest c t :=
  (System.sound_run hqsort hparse hallowed).showsLatest hqsort hparse htab hopen

/-- The result of the stop has been read. -/
theorem tabs_showLatest_stopAnswered :
    exists t panel,
      (Machine.run (System.step mergeQsort parseRequest) System.initial
        (stopServed ++ [SystemEvent.read 0])).tabs 0 = some t ∧
      t.profilerPanel = some panel ∧ CountsStacks panel.1 [callTrace] := by
  have hparse : ParsesRequests parseRequest := by
    intro type
    cases type <;> rfl
  rcases Option.isSome_iff_exists.mp (by decide +kernel :
    ((Machine.run (System.step mergeQsort parseRequest) System.initial
      stopServed).tabs 0).isSome = true) with ⟨t, htab⟩
  have hopen : ((Machine.run (System.step mergeQsort parseRequest)
      System.initial stopServed).tabs 0).map JvmTab.closed = some false := by
    decide +kernel
  rw [htab, Option.map_some, Option.some.injEq] at hopen
  have hbefore := System.sound_run mergeQsort_contract hparse
    (stopServed_allowed.of_prefix (List.prefix_append _ _))
  rcases hbefore.read_open hparse htab hopen 0 with ⟨t', htab', hopen'⟩
  have hrun : Machine.run (System.step mergeQsort parseRequest) System.initial
      (stopServed ++ [SystemEvent.read 0]) =
        (Machine.run (System.step mergeQsort parseRequest) System.initial
          stopServed).step mergeQsort parseRequest (SystemEvent.read 0) :=
    Machine.run_concat _ _ _
  rw [← hrun] at htab'
  rcases (tabs_showLatest mergeQsort mergeQsort_contract parseRequest hparse
    (stopServed ++ [SystemEvent.read 0]) stopServed_allowed 0 t' htab'
    hopen').latest 0 (by decide +kernel) with ⟨agent, r, hagent, hr, hshows⟩
  have hreports : ((Machine.run (System.step mergeQsort parseRequest)
      System.initial (stopServed ++ [SystemEvent.read 0])).agents 0).map
        (fun agent => stopReports agent.session.samples 0 agent.served) =
      some [{ running := true, samples := [some callTrace] }] := by
    rfl
  rw [hagent, Option.map_some, Option.some.injEq] at hreports
  rw [hreports] at hr
  cases hr
  rcases hshows (fun msg hmem => by cases hmem) (by decide)
    (distinguishable_singleton (by decide) (by decide)) with
    ⟨panel, hpanel, hcounts⟩
  exact ⟨t', panel, htab', hpanel, hcounts⟩

end EndToEnd
end Franky
