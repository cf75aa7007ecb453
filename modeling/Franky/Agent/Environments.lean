import Franky.Agent.CompileFlags

/-!
# Several environments

`VM::init` asks for an environment of its own each time it is called, and none
is ever disposed of.  The virtual machine then reports every compilation to the
same callback once for each of them.  A compilation that is reported again
replaces its record by an equal one, so that nothing the agent reports depends
on the number of environments, as long as there is one.
-/

namespace Franky
namespace Agent

open Foundation
open Protocol

/-!
## Environments
-/

/-- What the virtual machine returns to `VM::init`, and whether `GetEnv` gives
it an environment. -/
structure InitCalls where
  getEnv : Int32
  environment : Bool
  addCapabilities : Int32
  setEventCallbacks : Int32
deriving DecidableEq, Repr

/-- The registry, whether `_jvmti` is set, and the number of environments in
which the events are enabled. -/
structure Host where
  vm : VM
  jvmti : Bool
  enabled : Nat

inductive HostEvent where
  | init (calls : InitCalls)
  | compiled (event : CompiledMethodEvent)
  | query (method : UInt64)

namespace Host

def initial : Host := { vm := VM.initial, jvmti := false, enabled := 0 }

/-- `VM::init`. -/
def init (h : Host) (calls : InitCalls) : Int32 × Host :=
  let h := { h with jvmti := calls.environment }
  if calls.getEnv ≠ 0 ∨ calls.environment = false then (calls.getEnv, h)
  else if calls.addCapabilities ≠ 0 then (calls.addCapabilities, h)
  else if calls.setEventCallbacks ≠ 0 then (calls.setEventCallbacks, h)
  else (0, { h with enabled := h.enabled + 1 })

def deliver (event : CompiledMethodEvent) : Nat -> VM -> VM
  | 0, vm => vm
  | n + 1, vm => (deliver event n vm).compiledMethodLoad event

def step (names : UInt64 -> MethodName) (h : Host) : HostEvent -> Host
  | HostEvent.init calls => (h.init calls).2
  | HostEvent.compiled event =>
      { h with vm := deliver event h.enabled h.vm }
  | HostEvent.query method =>
      { h with vm := (h.vm.fillMethodInfo names method).2 }

def answer (names : UInt64 -> MethodName) (h : Host) :
    HostEvent -> Option MethodInfo
  | HostEvent.query method => some (h.vm.fillMethodInfo names method).1
  | _ => none

end Host

def VM.answer (names : UInt64 -> MethodName) (vm : VM) :
    RegistryEvent -> Option MethodInfo
  | RegistryEvent.query method => some (vm.fillMethodInfo names method).1
  | RegistryEvent.load _ => none

/-- What the first environment sees of an event. -/
def Host.heard (h : Host) : HostEvent -> Option RegistryEvent
  | HostEvent.init _ => none
  | HostEvent.compiled event =>
      if h.enabled = 0 then none else some (RegistryEvent.load event)
  | HostEvent.query method => some (RegistryEvent.query method)

def heardOnce (names : UInt64 -> MethodName) (h : Host)
    (events : List HostEvent) : List RegistryEvent :=
  Machine.outputs (Host.step names) Host.heard h events

theorem heardOnce_cons (names : UInt64 -> MethodName) (h : Host)
    (event : HostEvent) (events : List HostEvent) :
    heardOnce names h (event :: events) =
      (h.heard event).toList ++ heardOnce names (h.step names event) events :=
  rfl

/-!
## The same registry with other records

Two registries are the same to the agent when the same methods share a record,
and the records they share are equal and both live or both deleted.  What no
entry refers to does not matter.
-/

namespace VM

variable {vm vm' : VM}

def entry (vm : VM) (method : UInt64) : Option Nat :=
  (vm.compilesInfo method).join

/-- Entries refer to records, and only records are deleted. -/
structure Valid (vm : VM) : Prop where
  entry : forall method info, vm.entry method = some info ->
    info < vm.records.length
  deleted : vm.WellFormed

/-- What the entry of a method says. -/
def content (vm : VM) (method : UInt64) : Option CompileInfo :=
  (vm.entry method).bind (fun info => vm.records[info]?)

structure Same (vm vm' : VM) : Prop where
  shared : forall method other, vm.entry method = vm.entry other <->
    vm'.entry method = vm'.entry other
  content : forall method, vm.content method = vm'.content method
  deleted : forall method i j, vm.entry method = some i ->
    vm'.entry method = some j -> (i ∈ vm.deleted <-> j ∈ vm'.deleted)

/-- The methods that the event mentions share a live record that it has
created. -/
structure Reported (vm : VM) (event : CompiledMethodEvent) (k : Nat) :
    Prop where
  mentioned : forall method, event.Mentions method -> vm.entry method = some k
  others : forall method, Not (event.Mentions method) ->
    vm.entry method ≠ some k
  record : vm.records[k]? = some event.info
  live : k ∉ vm.deleted

/-!
## One delivery
-/

theorem entry_load (vm : VM) (event : CompiledMethodEvent) (method : UInt64) :
    (vm.compiledMethodLoad event).entry method =
      if event.Mentions method then some vm.records.length
      else vm.entry method :=
  compiledMethodLoad_join vm event method

theorem deleted_load (vm : VM) (event : CompiledMethodEvent) (info : Nat) :
    info ∈ (vm.compiledMethodLoad event).deleted <->
      info ∈ vm.deleted ∨ (vm.entry event.method = some info ∧
        vm.recordMethod info = some event.method) := by
  rw [mem_compiledMethodLoad_deleted, entry, Option.join_eq_some_iff]

namespace Valid

theorem entry_ne (h : vm.Valid) (method : UInt64) :
    vm.entry method ≠ some vm.records.length := by
  intro hentry
  exact Nat.lt_irrefl _ (h.entry method _ hentry)

theorem not_deleted (h : vm.Valid) : vm.records.length ∉ vm.deleted := by
  intro hmem
  exact Nat.lt_irrefl _ (h.deleted _ hmem)

theorem load (h : vm.Valid) (event : CompiledMethodEvent) :
    (vm.compiledMethodLoad event).Valid where
  entry := by
    intro method info hentry
    rw [entry_load] at hentry
    rw [compiledMethodLoad_records]
    split at hentry
    · cases hentry
      exact Nat.lt_succ_self _
    · exact Nat.lt_succ_of_lt (h.entry method info hentry)
  deleted := h.deleted.load event

theorem not_deleted_load (h : vm.Valid) (event : CompiledMethodEvent) :
    vm.records.length ∉ (vm.compiledMethodLoad event).deleted := by
  rw [deleted_load]
  intro hmem
  rcases hmem with hold | ⟨hentry, _⟩
  · exact h.not_deleted hold
  · exact h.entry_ne event.method hentry

theorem content_load (h : vm.Valid) (event : CompiledMethodEvent)
    (method : UInt64) :
    (vm.compiledMethodLoad event).content method =
      if event.Mentions method then some event.info
      else vm.content method := by
  unfold content
  rw [entry_load, compiledMethodLoad_records_eq]
  split
  · rw [Option.bind_some, List.getElem?_concat_length]
  · apply Option.bind_congr
    intro info hentry
    rw [List.getElem?_append_left (h.entry method info hentry)]

theorem reported (h : vm.Valid) (event : CompiledMethodEvent) :
    (vm.compiledMethodLoad event).Reported event vm.records.length where
  mentioned := by
    intro method hmentions
    rw [entry_load, if_pos hmentions]
  others := by
    intro method hother
    rw [entry_load, if_neg hother]
    exact h.entry_ne method
  record := by
    rw [compiledMethodLoad_records_eq, List.getElem?_concat_length]
  live := h.not_deleted_load event

end Valid

namespace Same

theorem recordMethod (h : vm.Same vm') {method : UInt64} {i j : Nat}
    (hi : vm.entry method = some i) (hj : vm'.entry method = some j) :
    vm.recordMethod i = vm'.recordMethod j := by
  have hcontent := h.content method
  unfold VM.content at hcontent
  rw [hi, hj, Option.bind_some, Option.bind_some] at hcontent
  unfold VM.recordMethod
  rw [hcontent]

theorem load (h : vm.Same vm') (hvalid : vm.Valid) (hvalid' : vm'.Valid)
    (event : CompiledMethodEvent) :
    (vm.compiledMethodLoad event).Same (vm'.compiledMethodLoad event) := by
  constructor
  · intro method other
    simp only [entry_load]
    split
    · split
      · simp
      · exact iff_of_false (fun hsame => hvalid.entry_ne other hsame.symm)
          (fun hsame => hvalid'.entry_ne other hsame.symm)
    · split
      · exact iff_of_false (hvalid.entry_ne method) (hvalid'.entry_ne method)
      · exact h.shared method other
  · intro method
    rw [hvalid.content_load, hvalid'.content_load, h.content]
  · intro method i j hi hj
    rw [entry_load] at hi hj
    split at hi
    · next hmentions =>
        rw [if_pos hmentions] at hj
        cases hi
        cases hj
        exact iff_of_false (hvalid.not_deleted_load event)
          (hvalid'.not_deleted_load event)
    · next hother =>
        rw [if_neg hother] at hj
        rw [deleted_load, deleted_load, h.deleted method i j hi hj,
          h.recordMethod hi hj, ← hi, ← hj, h.shared]

theorem again (h : vm.Same vm') (hvalid' : vm'.Valid)
    {event : CompiledMethodEvent} {k : Nat} (hreported : vm'.Reported event k) :
    vm.Same (vm'.compiledMethodLoad event) := by
  constructor
  · intro method other
    rw [h.shared, entry_load, entry_load]
    split
    · next hmentions =>
        rw [hreported.mentioned method hmentions]
        split
        · next hmentions' => simp [hreported.mentioned other hmentions']
        · next hother =>
            exact iff_of_false
              (fun hsame => hreported.others other hother hsame.symm)
              (fun hsame => hvalid'.entry_ne other hsame.symm)
    · next hother =>
        split
        · next hmentions =>
            rw [hreported.mentioned other hmentions]
            exact iff_of_false (hreported.others method hother)
              (hvalid'.entry_ne method)
        · exact Iff.rfl
  · intro method
    rw [h.content, hvalid'.content_load]
    split
    · next hmentions =>
        rw [VM.content, hreported.mentioned method hmentions, Option.bind_some,
          hreported.record]
    · rfl
  · intro method i j hi hj
    rw [entry_load] at hj
    split at hj
    · next hmentions =>
        cases hj
        rw [h.deleted method i k hi (hreported.mentioned method hmentions)]
        exact iff_of_false hreported.live (hvalid'.not_deleted_load event)
    · next hother =>
        rw [h.deleted method i j hi hj, deleted_load,
          hreported.mentioned event.method (Or.inl rfl)]
        -- the record that goes is not the one of a method left out
        have hne : some k ≠ some j :=
          fun hsame => hreported.others method hother (hj.trans hsame.symm)
        simp [hne]

end Same

/-!
## Any number of environments
-/

theorem Valid.deliver (h : vm.Valid) (event : CompiledMethodEvent) (n : Nat) :
    (Host.deliver event n vm).Valid := by
  induction n with
  | zero => exact h
  | succ n ih => exact ih.load event

theorem Same.deliver (h : vm.Same vm') (hvalid : vm.Valid)
    (hvalid' : vm'.Valid) (event : CompiledMethodEvent) (n : Nat) :
    (vm.compiledMethodLoad event).Same (Host.deliver event (n + 1) vm') := by
  induction n with
  | zero => exact h.load hvalid hvalid' event
  | succ n ih =>
      have hreported := (hvalid'.deliver event n).reported event
      exact ih.again (hvalid'.deliver event (n + 1)) hreported

theorem entry_query (names : UInt64 -> MethodName) (vm : VM)
    (queried method : UInt64) :
    (vm.fillMethodInfo names queried).2.entry method = vm.entry method := by
  apply Option.ext
  intro info
  rw [fillMethodInfo_vm, entry, entry, Option.join_eq_some_iff,
    Option.join_eq_some_iff, lookup_entry]

theorem Valid.query (h : vm.Valid) (names : UInt64 -> MethodName)
    (method : UInt64) : (vm.fillMethodInfo names method).2.Valid where
  entry := by
    intro other info hentry
    rw [entry_query] at hentry
    rw [fillMethodInfo_vm, lookup_records]
    exact h.entry other info hentry
  deleted := h.deleted.query names method

theorem Same.query (h : vm.Same vm') (names : UInt64 -> MethodName)
    (method : UInt64) :
    (vm.fillMethodInfo names method).2.Same
      (vm'.fillMethodInfo names method).2 := by
  constructor
  · intro method other
    simp only [entry_query]
    exact h.shared method other
  · intro method
    unfold VM.content
    simp only [entry_query]
    rw [fillMethodInfo_vm, fillMethodInfo_vm, lookup_records, lookup_records]
    exact h.content method
  · intro method i j hi hj
    rw [entry_query] at hi hj
    rw [fillMethodInfo_vm, fillMethodInfo_vm, lookup_deleted, lookup_deleted]
    exact h.deleted method i j hi hj

theorem Valid.fillMethodInfo (h : vm.Valid) (names : UInt64 -> MethodName)
    (method : UInt64) :
    (vm.fillMethodInfo names method).1 =
      { jMethodId := jMethodIdToId method
        name := (names method).name
        sig := (names method).sig
        holder := (names method).holder
        compiled := (vm.content method).isSome
        inlined := (vm.content method).map
          (fun record => decide (record.method ≠ method)) } := by
  have hentry := h.entry method
  unfold VM.fillMethodInfo VM.content
  dsimp only
  rw [lookup_fst]
  unfold VM.entry at hentry ⊢
  cases hinfo : (vm.compilesInfo method).join with
  | none => rfl
  | some info =>
      have hlt := hentry info hinfo
      simp only [Option.isSome_some, Option.map_some, Option.bind_some,
        List.getElem?_eq_getElem hlt]
      rw [recordMethod_lookup, VM.recordMethod, List.getElem?_eq_getElem hlt]
      simp

theorem Same.entriesLive_iff (h : vm.Same vm') (hvalid : vm.Valid)
    (hvalid' : vm'.Valid) : vm.EntriesLive <-> vm'.EntriesLive := by
  have hlive : forall {vm : VM}, vm.Valid -> (vm.EntriesLive <->
      forall method info, vm.entry method = some info ->
        info ∉ vm.deleted) := by
    intro vm hvalid
    constructor
    · intro hall method info hentry
      exact (hall method info (Option.join_eq_some_iff.mp hentry)).right
    · intro hall method info hentry
      have hentry' : vm.entry method = some info :=
        Option.join_eq_some_iff.mpr hentry
      exact ⟨hvalid.entry method info hentry', hall method info hentry'⟩
  have hsome : forall method, (vm.entry method).isSome =
      (vm'.entry method).isSome := by
    intro method
    have hcontent := h.content method
    unfold VM.content at hcontent
    cases hi : vm.entry method <;> cases hj : vm'.entry method
    · rfl
    · next j =>
        rw [hi, hj, Option.bind_none, Option.bind_some,
          List.getElem?_eq_getElem (hvalid'.entry method j hj)] at hcontent
        cases hcontent
    · next i =>
        rw [hi, hj, Option.bind_none, Option.bind_some,
          List.getElem?_eq_getElem (hvalid.entry method i hi)] at hcontent
        cases hcontent
    · rfl
  rw [hlive hvalid, hlive hvalid']
  constructor
  · intro hall method j hj
    have hi := hsome method
    rw [hj, Option.isSome_some] at hi
    rcases Option.isSome_iff_exists.mp hi with ⟨i, hi⟩
    rw [← h.deleted method i j hi hj]
    exact hall method i hi
  · intro hall method i hi
    have hj := (hsome method).symm
    rw [hi, Option.isSome_some] at hj
    rcases Option.isSome_iff_exists.mp hj with ⟨j, hj⟩
    rw [h.deleted method i j hi hj]
    exact hall method j hj

/-- The registry of a host is the one that its first environment alone would
have made. -/
theorem Same.run (names : UInt64 -> MethodName) {h : Host}
    (hsame : vm.Same h.vm) (hvalid : vm.Valid) (hvalid' : h.vm.Valid)
    (events : List HostEvent) :
    Machine.outputs (VM.step names) (VM.answer names) vm
        (heardOnce names h events) =
      Machine.outputs (Host.step names) (Host.answer names) h events ∧
    ((Machine.run (VM.step names) vm
        (heardOnce names h events)).EntriesLive <->
      (Machine.run (Host.step names) h events).vm.EntriesLive) := by
  induction events generalizing vm h with
  | nil => exact ⟨rfl, hsame.entriesLive_iff hvalid hvalid'⟩
  | cons event events ih =>
      rw [heardOnce_cons, Machine.outputs_append, Machine.run_append,
        Machine.outputs_cons, Machine.run_cons]
      cases event with
      | init calls =>
          have hvm : (h.init calls).2.vm = h.vm := by
            unfold Host.init
            dsimp only
            split_ifs <;> rfl
          rw [← hvm] at hsame hvalid'
          exact ih (h := h.step names (HostEvent.init calls)) hsame hvalid
            hvalid'
      | compiled event =>
          cases henabled : h.enabled with
          | zero =>
              have hvm : (h.step names (HostEvent.compiled event)).vm = h.vm := by
                rw [Host.step, henabled]
                rfl
              rw [← hvm] at hsame hvalid'
              rw [Host.heard, if_pos henabled]
              exact ih hsame hvalid hvalid'
          | succ n =>
              have hvm : (h.step names (HostEvent.compiled event)).vm =
                  Host.deliver event (n + 1) h.vm := by
                rw [Host.step, henabled]
              have hdelivered := hsame.deliver hvalid hvalid' event n
              have hvalidated := hvalid'.deliver event (n + 1)
              rw [← hvm] at hdelivered hvalidated
              rw [Host.heard, if_neg (by rw [henabled]; exact Nat.succ_ne_zero n)]
              exact ih hdelivered (hvalid.load event) hvalidated
      | query method =>
          have hanswer : (vm.fillMethodInfo names method).1 =
              (h.vm.fillMethodInfo names method).1 := by
            rw [hvalid.fillMethodInfo, hvalid'.fillMethodInfo, hsame.content]
          have hnext := ih
            (h := h.step names (HostEvent.query method))
            (hsame.query names method) (hvalid.query names method)
            (hvalid'.query names method)
          refine ⟨?_, hnext.right⟩
          rw [Host.answer, ← hanswer]
          exact congrArg (List.cons _) hnext.left

end VM

theorem initial_valid : VM.initial.Valid where
  entry := by
    intro method info hentry
    cases hentry
  deleted := by
    intro info hmem
    cases hmem

theorem same_initial : VM.initial.Same VM.initial :=
  ⟨fun _ _ => Iff.rfl, fun _ => rfl, fun _ _ _ hi _ => by cases hi⟩

/-- However many environments have been set up, and whenever, every query
reports what it would report if each compilation since the first of them had
been reported once, and the entries are live exactly when they would be then. -/
theorem environments_agree (names : UInt64 -> MethodName)
    (events : List HostEvent) :
    Machine.outputs (VM.step names) (VM.answer names) VM.initial
        (heardOnce names Host.initial events) =
      Machine.outputs (Host.step names) (Host.answer names) Host.initial
        events ∧
    ((Machine.run (VM.step names) VM.initial
        (heardOnce names Host.initial events)).EntriesLive <->
      (Machine.run (Host.step names) Host.initial events).vm.EntriesLive) :=
  VM.Same.run names same_initial initial_valid initial_valid events

/-- The second of two environments reports a compilation that inlines another
method once more. -/
example : (Machine.outputs
    (Host.step (fun _ => { name := "run", sig := "()V", classSig := "LMain;" }))
    (Host.answer
      (fun _ => { name := "run", sig := "()V", classSig := "LMain;" }))
    Host.initial
    [HostEvent.init ⟨0, true, 0, 0⟩, HostEvent.init ⟨0, true, 0, 0⟩,
      HostEvent.compiled inliningEvent, HostEvent.query 2]).map
        MethodInfo.inlined = [some true] := by decide

end Agent
end Franky
