import Mathlib.Logic.Function.Basic
import Mathlib.Data.List.Basic
import Franky.Foundation.Machine
import Franky.Protocol

/-!
# The registry of compiled methods

`VM::compiles_info` maps a method to the record of the compilation that last
mentioned it.  A compilation shares its record between its own method and the
methods inlined into it, and deletes at most one older record.
-/

namespace Franky
namespace Agent

open Foundation
open Protocol

/-!
## Records and the map

A record is known by the number of its creation.  The map distinguishes a method
it has no entry for from a method whose entry is null, since looking a method up
creates a null entry.
-/

/-- `CompileInfo`, less the address of the chain it was read from. -/
structure CompileInfo where
  codeSize : Int32
  mapLength : Int32
  codeAddr : UInt64
  method : UInt64
deriving DecidableEq, Repr

structure VM where
  compilesInfo : UInt64 -> Option (Option Nat)
  records : List CompileInfo
  deleted : List Nat

/-- The registry when the library is loaded. -/
def VM.initial : VM :=
  { compilesInfo := fun _ => none, records := [], deleted := [] }

/-- One record of the chain that a compilation event carries. -/
inductive CompileRecord where
  | dummy
  | inlineInfo (pcinfo : Option (List (List UInt64)))
  | unknown (kind : Int32)
deriving DecidableEq, Repr

/-- The arguments of `VM::CompiledMethodLoad` that it uses. -/
structure CompiledMethodEvent where
  method : UInt64
  codeSize : Int32
  codeAddr : UInt64
  mapLength : Int32
  chain : List CompileRecord
deriving DecidableEq, Repr

/-- The methods a record of the chain lists in its frames, in loop order. -/
def CompileRecord.methods : CompileRecord -> List UInt64
  | dummy => []
  | inlineInfo none => []
  | inlineInfo (some pcinfo) => pcinfo.flatten
  | unknown _ => []

def CompiledMethodEvent.inlinedMethods (event : CompiledMethodEvent) :
    List UInt64 :=
  event.chain.flatMap CompileRecord.methods

/-- `compiles_info[method]`, which creates a null entry where there is none. -/
def VM.lookup (vm : VM) (method : UInt64) : Option Nat × VM :=
  match vm.compilesInfo method with
  | some entry => (entry, vm)
  | none =>
      (none, { vm with
        compilesInfo := Function.update vm.compilesInfo method (some none) })

/-- `compiles_info[method] = info`. -/
def VM.assign (vm : VM) (info : Nat) (method : UInt64) : VM :=
  { vm with
    compilesInfo :=
      Function.update vm.compilesInfo method (some (some info)) }

/-- The method a record was created for. -/
def VM.recordMethod (vm : VM) (info : Nat) : Option UInt64 :=
  vm.records[info]?.map CompileInfo.method

/-- `delete info`, where the entry is a record of the method itself. -/
def VM.deleteOwn (vm : VM) (method : UInt64) : Option Nat -> VM
  | none => vm
  | some info =>
      if vm.recordMethod info = some method then
        { vm with deleted := info :: vm.deleted }
      else vm

/-- `new CompileInfo(..)`, which is given the next number. -/
def VM.create (vm : VM) (event : CompiledMethodEvent) : VM :=
  { vm with
    records := vm.records ++
      [{ codeSize := event.codeSize, mapLength := event.mapLength,
         codeAddr := event.codeAddr, method := event.method }] }

def VM.compiledMethodLoad (vm : VM) (event : CompiledMethodEvent) : VM :=
  let (entry, vm) := vm.lookup event.method
  let vm := vm.deleteOwn event.method entry
  let info := vm.records.length
  let vm := (vm.create event).assign info event.method
  event.inlinedMethods.foldl (fun vm method => vm.assign info method) vm

/-!
## Queries
-/

/-- `MethodName`: the strings the virtual machine gives for a method. -/
structure MethodName where
  name : String
  sig : String
  classSig : String
deriving DecidableEq, Repr

/-- `MethodName::holder`: the class signature with dots for slashes, less its
last character, read from its second character on. -/
def MethodName.holder (mn : MethodName) : String :=
  String.ofList ((mn.classSig.toList.map
    (fun c => if c = '/' then '.' else c)).dropLast.drop 1)

def jMethodIdToId (method : UInt64) : Int64 := method.toInt64

def VM.fillMethodInfo (names : UInt64 -> MethodName) (vm : VM)
    (method : UInt64) : MethodInfo × VM :=
  let mn := names method
  let (entry, vm) := vm.lookup method
  ({ jMethodId := jMethodIdToId method
     name := mn.name
     sig := mn.sig
     holder := mn.holder
     compiled := entry.isSome
     inlined := entry.map (fun info =>
       decide (vm.recordMethod info ≠ some method)) }, vm)

/-- What happens to the registry: a compilation, or a query for a result. -/
inductive RegistryEvent where
  | load (event : CompiledMethodEvent)
  | query (method : UInt64)

def VM.step (names : UInt64 -> MethodName) (vm : VM) :
    RegistryEvent -> VM
  | RegistryEvent.load event => vm.compiledMethodLoad event
  | RegistryEvent.query method => (vm.fillMethodInfo names method).2

/-!
## Live entries

A record is live from its creation until it is deleted.
-/

def VM.Live (vm : VM) (info : Nat) : Prop :=
  info < vm.records.length ∧ info ∉ vm.deleted

/-- Every non-null entry of the map is a live record. -/
def VM.EntriesLive (vm : VM) : Prop :=
  forall method info, vm.compilesInfo method = some (some info) ->
    vm.Live info

/-- The event deletes no record that another entry keeps: each other method that
shares the record is listed by the event itself. -/
def VM.LoadKeepsShared (vm : VM) (event : CompiledMethodEvent) : Prop :=
  forall info, vm.compilesInfo event.method = some (some info) ->
    vm.recordMethod info = some event.method ->
      forall method, vm.compilesInfo method = some (some info) ->
        method = event.method ∨ method ∈ event.inlinedMethods

def VM.KeepsShared (vm : VM) : RegistryEvent -> Prop
  | RegistryEvent.load event => vm.LoadKeepsShared event
  | RegistryEvent.query _ => True

/-- Only records that exist are deleted. -/
def VM.WellFormed (vm : VM) : Prop :=
  forall info, info ∈ vm.deleted -> info < vm.records.length

/-!
## What an event does to the map
-/

theorem lookup_fst (vm : VM) (method : UInt64) :
    (vm.lookup method).1 = (vm.compilesInfo method).join := by
  unfold VM.lookup
  cases vm.compilesInfo method with
  | none => rfl
  | some entry => rfl

theorem lookup_entry (vm : VM) (method other : UInt64) (info : Nat) :
    (vm.lookup method).2.compilesInfo other = some (some info) <->
      vm.compilesInfo other = some (some info) := by
  unfold VM.lookup
  cases hentry : vm.compilesInfo method with
  | some entry => exact Iff.rfl
  | none =>
      by_cases hsame : other = method
      · simp [hsame, hentry]
      · simp [Function.update_of_ne hsame]

@[simp] theorem lookup_records (vm : VM) (method : UInt64) :
    (vm.lookup method).2.records = vm.records := by
  unfold VM.lookup
  cases vm.compilesInfo method <;> rfl

@[simp] theorem lookup_deleted (vm : VM) (method : UInt64) :
    (vm.lookup method).2.deleted = vm.deleted := by
  unfold VM.lookup
  cases vm.compilesInfo method <;> rfl

theorem recordMethod_lookup (vm : VM) (method : UInt64) (info : Nat) :
    (vm.lookup method).2.recordMethod info = vm.recordMethod info := by
  unfold VM.recordMethod
  rw [lookup_records]

theorem foldl_assign_compilesInfo (info : Nat) (methods : List UInt64)
    (vm : VM) (method : UInt64) :
    (methods.foldl (fun vm m => vm.assign info m) vm).compilesInfo method =
      if method ∈ methods then some (some info)
      else vm.compilesInfo method := by
  induction methods generalizing vm with
  | nil => rfl
  | cons first rest ih =>
      rw [List.foldl_cons, ih]
      by_cases hrest : method ∈ rest
      · simp [hrest]
      · by_cases hfirst : method = first
        · simp [hfirst, VM.assign]
        · simp [hrest, hfirst, VM.assign]

theorem foldl_assign_records (info : Nat) (methods : List UInt64) (vm : VM) :
    (methods.foldl (fun vm m => vm.assign info m) vm).records =
      vm.records := by
  induction methods generalizing vm with
  | nil => rfl
  | cons first rest ih => exact ih (vm.assign info first)

theorem foldl_assign_deleted (info : Nat) (methods : List UInt64) (vm : VM) :
    (methods.foldl (fun vm m => vm.assign info m) vm).deleted =
      vm.deleted := by
  induction methods generalizing vm with
  | nil => rfl
  | cons first rest ih => exact ih (vm.assign info first)

theorem deleteOwn_compilesInfo (vm : VM) (method : UInt64)
    (entry : Option Nat) :
    (vm.deleteOwn method entry).compilesInfo = vm.compilesInfo := by
  cases entry with
  | none => rfl
  | some info =>
      unfold VM.deleteOwn
      dsimp only
      split <;> rfl

theorem deleteOwn_records (vm : VM) (method : UInt64) (entry : Option Nat) :
    (vm.deleteOwn method entry).records = vm.records := by
  cases entry with
  | none => rfl
  | some info =>
      unfold VM.deleteOwn
      dsimp only
      split <;> rfl

theorem mem_deleteOwn_deleted (vm : VM) (method : UInt64)
    (entry : Option Nat) (info : Nat) :
    info ∈ (vm.deleteOwn method entry).deleted <->
      info ∈ vm.deleted ∨
        (entry = some info ∧ vm.recordMethod info = some method) := by
  cases entry with
  | none => simp [VM.deleteOwn]
  | some old =>
      unfold VM.deleteOwn
      dsimp only
      split
      · rename_i hown
        constructor
        · intro hmem
          rcases List.mem_cons.mp hmem with heq | hold
          · exact Or.inr ⟨by rw [heq], by rw [heq, hown]⟩
          · exact Or.inl hold
        · intro hcase
          rcases hcase with hold | ⟨heq, _⟩
          · exact List.mem_cons_of_mem old hold
          · cases heq
            exact List.mem_cons_self
      · rename_i hother
        constructor
        · exact Or.inl
        · intro hcase
          rcases hcase with hold | ⟨heq, hown⟩
          · exact hold
          · cases heq
            exact absurd hown hother

/-- The methods an event assigns its new record to. -/
def CompiledMethodEvent.assigned (event : CompiledMethodEvent) :
    List UInt64 :=
  event.method :: event.inlinedMethods

def CompiledMethodEvent.info (event : CompiledMethodEvent) : CompileInfo :=
  { codeSize := event.codeSize, mapLength := event.mapLength,
    codeAddr := event.codeAddr, method := event.method }

theorem compiledMethodLoad_records_eq (vm : VM) (event : CompiledMethodEvent) :
    (vm.compiledMethodLoad event).records = vm.records ++ [event.info] := by
  unfold VM.compiledMethodLoad
  dsimp only
  rw [foldl_assign_records]
  simp [VM.assign, VM.create, deleteOwn_records, CompiledMethodEvent.info]

theorem compiledMethodLoad_records (vm : VM) (event : CompiledMethodEvent) :
    (vm.compiledMethodLoad event).records.length = vm.records.length + 1 := by
  rw [compiledMethodLoad_records_eq, List.length_append, List.length_singleton]

/-- After an event its own method and the methods it lists have the new record,
and every other entry is as it was. -/
theorem compiledMethodLoad_entry (vm : VM) (event : CompiledMethodEvent)
    (method : UInt64) (info : Nat) :
    (vm.compiledMethodLoad event).compilesInfo method = some (some info) <->
      if method ∈ event.assigned then info = vm.records.length
      else vm.compilesInfo method = some (some info) := by
  unfold VM.compiledMethodLoad
  dsimp only
  rw [foldl_assign_compilesInfo, deleteOwn_records, lookup_records]
  by_cases hinlined : method ∈ event.inlinedMethods
  · have hmem : method ∈ event.assigned := List.mem_cons_of_mem _ hinlined
    rw [if_pos hinlined, if_pos hmem]
    simp [eq_comm]
  · rw [if_neg hinlined]
    by_cases hself : method = event.method
    · have hmem : method ∈ event.assigned := hself ▸ List.mem_cons_self
      rw [if_pos hmem, hself]
      simp [VM.assign, eq_comm]
    · have hmem : method ∉ event.assigned := by
        simp [CompiledMethodEvent.assigned, hself, hinlined]
      rw [if_neg hmem]
      simp only [VM.assign, VM.create, Function.update_of_ne hself]
      rw [deleteOwn_compilesInfo]
      exact lookup_entry vm event.method method info

theorem mem_compiledMethodLoad_deleted (vm : VM)
    (event : CompiledMethodEvent) (info : Nat) :
    info ∈ (vm.compiledMethodLoad event).deleted <->
      info ∈ vm.deleted ∨
        (vm.compilesInfo event.method = some (some info) ∧
          vm.recordMethod info = some event.method) := by
  unfold VM.compiledMethodLoad
  dsimp only
  rw [foldl_assign_deleted]
  simp only [VM.assign, VM.create]
  rw [mem_deleteOwn_deleted, lookup_deleted, recordMethod_lookup, lookup_fst,
    Option.join_eq_some_iff]

/-!
## Keeping the entries live
-/

theorem VM.WellFormed.load {vm : VM} (h : vm.WellFormed)
    (event : CompiledMethodEvent) : (vm.compiledMethodLoad event).WellFormed := by
  intro info hinfo
  rw [compiledMethodLoad_records]
  rcases (mem_compiledMethodLoad_deleted vm event info).mp hinfo with
    hold | ⟨_, hown⟩
  · exact Nat.lt_succ_of_lt (h info hold)
  · rcases Option.map_eq_some_iff.mp hown with ⟨record, hrecord, _⟩
    exact Nat.lt_succ_of_lt (List.getElem?_eq_some_iff.mp hrecord).choose

/-- An event keeps the entries live exactly when it deletes no record that an
entry it does not assign still has. -/
theorem compiledMethodLoad_entriesLive_iff {vm : VM} (h : vm.WellFormed)
    (hlive : vm.EntriesLive) (event : CompiledMethodEvent) :
    (vm.compiledMethodLoad event).EntriesLive <->
      vm.LoadKeepsShared event := by
  constructor
  · intro hafter info hentry hown method hshared
    by_contra hkept
    have hmem : method ∉ event.assigned := by
      intro hmem
      exact hkept (List.mem_cons.mp hmem)
    have hstill := (compiledMethodLoad_entry vm event method info).mpr
      (by rwa [if_neg hmem])
    exact (hafter method info hstill).right
      ((mem_compiledMethodLoad_deleted vm event info).mpr
        (Or.inr ⟨hentry, hown⟩))
  · intro hkeeps method info hentry
    have hentry' := (compiledMethodLoad_entry vm event method info).mp hentry
    unfold VM.Live
    rw [compiledMethodLoad_records, mem_compiledMethodLoad_deleted]
    by_cases hmem : method ∈ event.assigned
    · rw [if_pos hmem] at hentry'
      subst hentry'
      refine ⟨Nat.lt_succ_self _, ?_⟩
      intro hcase
      rcases hcase with hold | ⟨hold, _⟩
      · exact Nat.lt_irrefl _ (h _ hold)
      · exact Nat.lt_irrefl _ (hlive _ _ hold).left
    · rw [if_neg hmem] at hentry'
      rcases hlive method info hentry' with ⟨hlt, hkept⟩
      refine ⟨Nat.lt_succ_of_lt hlt, ?_⟩
      intro hcase
      rcases hcase with hold | ⟨hold, hown⟩
      · exact hkept hold
      · exact hmem (List.mem_cons.mpr (hkeeps info hold hown method hentry'))

theorem fillMethodInfo_vm (names : UInt64 -> MethodName) (vm : VM)
    (method : UInt64) :
    (vm.fillMethodInfo names method).2 = (vm.lookup method).2 := rfl

theorem query_entriesLive_iff (names : UInt64 -> MethodName) (vm : VM)
    (method : UInt64) :
    (vm.fillMethodInfo names method).2.EntriesLive <-> vm.EntriesLive := by
  rw [fillMethodInfo_vm]
  unfold VM.EntriesLive VM.Live
  simp only [lookup_entry, lookup_records, lookup_deleted]

theorem VM.WellFormed.query {vm : VM} (h : vm.WellFormed)
    (names : UInt64 -> MethodName) (method : UInt64) :
    (vm.fillMethodInfo names method).2.WellFormed := by
  rw [fillMethodInfo_vm]
  unfold VM.WellFormed
  rw [lookup_deleted, lookup_records]
  exact h

/-- The registry refers to live records in every state of a run exactly when no
event of the run deletes a record that another entry keeps. -/
theorem entriesLive_iff_keepsShared (names : UInt64 -> MethodName)
    (events : List RegistryEvent) :
    Machine.AllStates (VM.step names) VM.EntriesLive VM.initial events <->
      Machine.AllSteps (VM.step names) VM.KeepsShared VM.initial events := by
  apply Machine.allStates_iff_allSteps (fun vm _ => vm.WellFormed)
  · intro vm event _ h hlive
    cases event with
    | load event => exact compiledMethodLoad_entriesLive_iff h hlive event
    | query method =>
        exact iff_of_true ((query_entriesLive_iff names vm method).mpr hlive)
          trivial
  · intro vm event _ h _ _
    cases event with
    | load event => exact h.load event
    | query method => exact h.query names method
  · intro info hinfo
    cases hinfo
  · intro method info hentry
    cases hentry

def inliningEvent : CompiledMethodEvent :=
  { method := 1, codeSize := 64, codeAddr := 4096, mapLength := 0,
    chain := [CompileRecord.inlineInfo (some [[2, 1]])] }

def plainEvent : CompiledMethodEvent :=
  { method := 1, codeSize := 32, codeAddr := 8192, mapLength := 0,
    chain := [] }

/-- The second event deletes the record that the entry of method 2 keeps. -/
theorem not_entriesLive_after_recompilation :
    ¬ Machine.AllStates
      (VM.step (fun _ => { name := "run", sig := "()V", classSig := "LMain;" }))
      VM.EntriesLive VM.initial
      [RegistryEvent.load inliningEvent, RegistryEvent.load plainEvent] := by
  intro hboth
  rcases hboth with ⟨_, _, hlive⟩
  have hentry := (hlive 2 0 (by decide)).right
  revert hentry
  decide

end Agent
end Franky
