import Franky.Agent.Frames
import Franky.EndToEnd.TabAndAgent

/-!
# An agent while it is driven

A loaded agent is known by the session that it has had so far.  What it has sent
and whether it runs is what the request loop would return with, if nothing more
came.  With more requests and samples the loop comes further, and what it has
sent stays sent.
-/

namespace Franky
namespace EndToEnd

open Foundation
open Foundation.ByteStream (Boundary)
open Foundation.Sorting (Qsort Contract)
open Protocol
open Agent
open Plugin

/-- The agent that a connection has loaded into a process, with its session and
the requests that it has read. -/
structure LoadedAgent where
  process : Process
  session : Session
  served : List RequestType

namespace LoadedAgent

def load (process : Process) (pid : Int32) (names : JMethodId -> MethodName)
    (vm : VM) : LoadedAgent :=
  { process := process
    session :=
      { pid := pid, names := names, vm := vm, reads := []
        samples := fun _ => [], sendSucceeds := fun _ => true }
    served := [] }

def sample (a : LoadedAgent) (outcome : Option AsgctCallTrace) : LoadedAgent :=
  { a with
    session :=
      { a.session with
        samples := Function.update a.session.samples a.served.length
          (a.session.samples a.served.length ++ [outcome]) } }

def serve (a : LoadedAgent) (type : RequestType) (chunks : List (List UInt8)) :
    LoadedAgent :=
  { a with
    session := { a.session with reads := a.session.reads ++ chunks }
    served := a.served ++ [type] }

section Loop

variable (qsort : Qsort maxCalltraces)
  (parse : List UInt8 -> Option RequestType)

def state (a : LoadedAgent) : LoopState :=
  ((a.session.handleRequestLoop qsort parse a.process).map Prod.snd).getD
    (a.session.begin a.process)

def sent (a : LoadedAgent) : List Response := (a.state qsort parse).sent

def running (a : LoadedAgent) : Bool :=
  (a.state qsort parse).process.profiler.running

end Loop

/-- The agent was not running when it was loaded, its requests come in turn and
one at a time, and it is sampled only while it waits for a stop. -/
structure Driven (a : LoadedAgent) : Prop where
  stopped : a.process.profiler.running = false
  sends : forall n, a.session.sendSucceeds n = true
  reads : OneAtATime a.session.reads a.served
  turn : exists running, InTurn false a.served running
  sampled : SampledInTurn a.session.samples
  later : forall n, a.served.length < n -> a.session.samples n = []

end LoadedAgent

/-!
## Sessions that grow
-/

/-- The request comes in these reads, and nothing else does. -/
def Carries (chunks : List (List UInt8)) (type : RequestType) : Prop :=
  chunks.flatten = requestFrame type ∧ forall chunk, chunk ∈ chunks -> chunk ≠ []

instance (chunks : List (List UInt8)) (type : RequestType) :
    Decidable (Carries chunks type) :=
  inferInstanceAs (Decidable (_ ∧ _))

theorem OneAtATime.concat {reads : List (List UInt8)}
    {types : List RequestType} (h : OneAtATime reads types)
    {chunks : List (List UInt8)} {type : RequestType}
    (hchunks : Carries chunks type) :
    OneAtATime (reads ++ chunks) (types ++ [type]) where
  chunks := by
    intro chunk hmem
    rcases List.mem_append.mp hmem with hold | hnew
    · exact h.chunks chunk hold
    · exact hchunks.right chunk hnew
  flat := by
    rw [List.flatten_append, List.flatMap_append, h.flat, hchunks.left,
      List.flatMap_singleton]
  ends := by
    intro n hn
    rw [List.length_append, List.length_singleton] at hn
    rcases Nat.le_succ_iff.mp hn with hle | rfl
    · rcases h.ends n hle with ⟨before, after, rfl, hlength⟩
      exact ⟨before, after ++ chunks, by rw [List.append_assoc], hlength⟩
    · refine ⟨reads ++ chunks, [], (List.append_nil _).symm, ?_⟩
      rcases h.ends types.length (le_refl _) with ⟨before, after, hsplit, hlength⟩
      have hframes : forall types : List RequestType,
          (types.flatMap requestFrame).length = 3 * types.length := by
        intro types
        rw [List.length_flatMap]
        have hframe : (fun type => (requestFrame type).length) =
            fun _ => 3 := rfl
        rw [hframe, List.map_const', List.sum_replicate, smul_eq_mul, mul_comm]
      rw [List.flatten_append, List.length_append, h.flat, hchunks.left,
        hframes]
      rfl

/-!
## What a session does as it grows
-/

section Events

variable {env : Session}

theorem events_reads (reads : List (List UInt8)) (n m : Nat)
    (types : List RequestType) :
    ({ env with reads := reads } : Session).events n m types =
      env.events n m types := by
  induction types generalizing n m with
  | nil => rfl
  | cons type types ih => cases type <;> simp [Session.events, ih]

theorem events_sample (hsends : forall n, env.sendSucceeds n = true)
    {types : List RequestType} (hdetach : RequestType.detach ∉ types)
    (n m : Nat) (outcome : Option AsgctCallTrace) :
    ({ env with
        samples := Function.update env.samples (n + types.length)
          (env.samples (n + types.length) ++ [outcome]) } : Session).events n m
        types =
      env.events n m types ++ [AgentEvent.sample outcome] := by
  induction types generalizing n m with
  | nil => simp [Session.events]
  | cons type types ih =>
      rcases not_or.mp (fun hmem => hdetach (List.mem_cons.mpr hmem)) with
        ⟨hne, hrest⟩
      have hlast : n + (type :: types).length = n + 1 + types.length := by
        rw [List.length_cons]
        lia
      have hbefore : n ≠ n + 1 + types.length := by lia
      have hnext := fun m => ih hrest (n + 1) m
      rw [← hlast] at hnext hbefore
      cases type with
      | startProfiling =>
          simp only [Session.events]
          rw [hnext, Function.update_of_ne hbefore]
          simp only [List.append_assoc]
      | stopProfiling =>
          simp only [Session.events]
          rw [if_pos (hsends m), if_pos (hsends m), hnext,
            Function.update_of_ne hbefore]
          simp only [List.append_assoc]
      | detach => exact absurd rfl hne

theorem events_concat (hsends : forall n, env.sendSucceeds n = true)
    {types : List RequestType} (hdetach : RequestType.detach ∉ types)
    (n m : Nat) (hlater : env.samples (n + types.length + 1) = [])
    (type : RequestType) :
    env.events n m (types ++ [type]) =
      env.events n m types ++ requestEvents type := by
  induction types generalizing n m with
  | nil =>
      rw [List.length_nil, Nat.add_zero] at hlater
      cases type <;> simp [Session.events, hlater, hsends]
  | cons first types ih =>
      rcases not_or.mp (fun hmem => hdetach (List.mem_cons.mpr hmem)) with
        ⟨hne, hrest⟩
      have hnext : env.samples (n + 1 + types.length + 1) = [] := by
        rw [← hlater, List.length_cons]
        congr 1
        lia
      cases first with
      | startProfiling =>
          simp only [List.cons_append, Session.events]
          rw [ih hrest _ _ hnext]
          simp only [List.append_assoc]
      | stopProfiling =>
          simp only [List.cons_append, Session.events]
          rw [if_pos (hsends m), if_pos (hsends m), ih hrest _ _ hnext]
          simp only [List.append_assoc]
      | detach => exact absurd rfl hne

theorem sent_isPrefix_run {qsort : Qsort maxCalltraces} (st : LoopState)
    (events : List AgentEvent) :
    st.sent <+: (Machine.run (env.handle qsort) st events).sent := by
  induction events generalizing st with
  | nil => exact List.prefix_refl _
  | cons event events ih =>
      refine List.IsPrefix.trans ?_ (ih (env.handle qsort st event))
      cases event with
      | start => exact List.prefix_refl _
      | stop => exact List.prefix_append _ _
      | sample outcome => exact List.prefix_refl _

end Events

/-!
## A driven agent
-/

namespace LoadedAgent

variable {qsort : Qsort maxCalltraces}
  {parse : List UInt8 -> Option RequestType} {a : LoadedAgent}

theorem Driven.state_sameAgent (h : a.Driven) (qsort : Qsort maxCalltraces)
    (hparse : ParsesRequests parse) :
    (Machine.run (a.session.handle qsort) (a.session.begin a.process)
      (a.session.events 0 1 a.served)).SameAgent (a.state qsort parse) := by
  rcases handleRequestLoop_returns qsort parse a.session a.process with
    ⟨⟨code, st⟩, hreturn⟩
  unfold state
  rw [hreturn, Option.map_some, Option.getD_some]
  rw [Session.handleRequestLoop, if_pos (h.sends 0)] at hreturn
  have hsame : (Machine.run (a.session.handle qsort) (a.session.begin a.process)
      (a.session.events 0 1 (requestsRead parse (a.session.reads.length + 1)
        a.session.reads))).SameAgent st := loop_sameAgent hreturn
  rw [h.reads.requestsRead hparse (Nat.lt_succ_self _)] at hsame
  exact hsame

theorem Driven.sent_sample (h : a.Driven) (hparse : ParsesRequests parse)
    (outcome : Option AsgctCallTrace)
    (h' : (a.sample outcome).Driven) :
    (a.sample outcome).sent qsort parse = a.sent qsort parse := by
  rcases h.turn with ⟨running, hturn⟩
  have hevents := events_sample h.sends hturn.not_detach 0 1 outcome
  rw [Nat.zero_add] at hevents
  have hhandle : (a.sample outcome).session.handle qsort =
      a.session.handle qsort := by
    funext st event
    cases event <;> rfl
  have hstate := h'.state_sameAgent qsort hparse
  rw [hhandle] at hstate
  change (Machine.run _ (a.session.begin a.process)
    (({ a.session with samples := _ } : Session).events 0 1
      a.served)).SameAgent _ at hstate
  rw [hevents, Machine.run_concat] at hstate
  exact hstate.sent.symm.trans (h.state_sameAgent qsort hparse).sent

theorem Driven.sent_serve (h : a.Driven) (hparse : ParsesRequests parse)
    {type : RequestType} {chunks : List (List UInt8)}
    (h' : (a.serve type chunks).Driven) :
    a.sent qsort parse <+: (a.serve type chunks).sent qsort parse := by
  rcases h.turn with ⟨running, hturn⟩
  have hlater : a.session.samples (0 + a.served.length + 1) = [] := by
    apply h.later
    lia
  have hevents := events_concat h.sends hturn.not_detach 0 1 hlater type
  have hhandle : (a.serve type chunks).session.handle qsort =
      a.session.handle qsort := by
    funext st event
    cases event <;> rfl
  have hbegin : ((a.serve type chunks).session.begin a.process).SameAgent
      (a.session.begin a.process) := ⟨rfl, rfl, rfl⟩
  have hstate := h'.state_sameAgent qsort hparse
  change (Machine.run _ ((a.serve type chunks).session.begin a.process)
    (({ a.session with reads := _ } : Session).events 0 1
      (a.served ++ [type]))).SameAgent _ at hstate
  rw [hhandle, events_reads, hevents] at hstate
  have hsent := ((hbegin.run _).sent).symm.trans hstate.sent
  rw [Machine.run_append] at hsent
  unfold sent
  rw [← hsent, ← (h.state_sameAgent qsort hparse).sent]
  exact sent_isPrefix_run _ _

theorem load_driven {process : Process}
    (hstopped : process.profiler.running = false) (pid : Int32)
    (names : JMethodId -> MethodName) (vm : VM) :
    (load process pid names vm).Driven where
  stopped := hstopped
  sends := fun _ => rfl
  reads := oneAtATime_frames []
  turn := ⟨false, InTurn.nil false⟩
  sampled := fun _ _ => rfl
  later := fun _ _ => rfl

/-- A driven agent runs exactly when its last request is a start, and answers
every stop with what was sampled since the start before it. -/
theorem Driven.answers (h : a.Driven) (hqsort : Contract qsort)
    (hparse : ParsesRequests parse) {running : Bool}
    (hturn : InTurn false a.served running) :
    a.running qsort parse = running ∧
      List.Forall₂ (Reports qsort) (stopReports a.session.samples 0 a.served)
        (results (a.sent qsort parse)) := by
  rcases session_inTurn hqsort hparse hturn h.reads h.sends h.sampled h.stopped
    with ⟨code, st, hreturn, hrunning, hreports⟩
  unfold LoadedAgent.running sent state
  rw [hreturn, Option.map_some, Option.getD_some]
  exact ⟨hrunning, hreports⟩

theorem Driven.sample (h : a.Driven) (hqsort : Contract qsort)
    (hparse : ParsesRequests parse) (hrunning : a.running qsort parse = true)
    (outcome : Option AsgctCallTrace) : (a.sample outcome).Driven where
  stopped := h.stopped
  sends := h.sends
  reads := h.reads
  turn := h.turn
  sampled := by
    intro n hn
    rcases h.turn with ⟨running, hturn⟩
    have hparity := hturn.parity
    rw [← (h.answers hqsort hparse hturn).left, hrunning, Bool.toNat_false,
      Nat.zero_add, Bool.toNat_true] at hparity
    have hne : n ≠ a.served.length := by lia
    exact (Function.update_of_ne hne _ _).trans (h.sampled n hn)
  later := by
    intro n hn
    have hlt : a.served.length < n := hn
    exact (Function.update_of_ne (Nat.ne_of_gt hlt) _ _).trans (h.later n hlt)

theorem Driven.serve (h : a.Driven) {type : RequestType} {running : Bool}
    (hturn : InTurn false (a.served ++ [type]) running)
    {chunks : List (List UInt8)} (hchunks : Carries chunks type) :
    (a.serve type chunks).Driven where
  stopped := h.stopped
  sends := h.sends
  reads := h.reads.concat hchunks
  turn := ⟨running, hturn⟩
  sampled := h.sampled
  later := by
    intro n hn
    apply h.later n
    have hlength : (a.serve type chunks).served.length = a.served.length + 1 :=
      List.length_append
    lia

theorem introduced_run {env : Session} {st : LoopState}
    (h : Introduced env.pid st.sent) (events : List AgentEvent) :
    Introduced env.pid (Machine.run (env.handle qsort) st events).sent := by
  induction events generalizing st with
  | nil => exact h
  | cons event events ih =>
      apply ih
      cases event with
      | start => exact h
      | stop => exact h.result st
      | sample outcome => exact h

theorem Driven.introduced (h : a.Driven) (qsort : Qsort maxCalltraces)
    (hparse : ParsesRequests parse) :
    Introduced a.session.pid (a.sent qsort parse) := by
  unfold sent
  rw [← (h.state_sameAgent qsort hparse).sent]
  exact introduced_run ⟨[], rfl, fun _ hmem => by cases hmem⟩ _

end LoadedAgent

end EndToEnd
end Franky
