import Mathlib.Logic.Basic

/-!
# Messages between the agent and the plugin

The records of `protocol.proto`.  A method id travels as a signed 64 bit
integer; the agent holds it as a pointer.
-/

namespace Franky
namespace Protocol

structure MethodInfo where
  jMethodId : Int64
  name : String
  sig : String
  holder : String
  compiled : Bool
  inlined : Option Bool
deriving DecidableEq, Repr

structure CallFrame where
  bci : Int32
  jMethodId : Int64
deriving DecidableEq, Repr

/-- `CallTraceSampleInfo`, with the innermost frame first. -/
structure CallTraceSampleInfo where
  callCount : Int32
  frameList : List CallFrame
deriving DecidableEq, Repr

structure MethodSampleInfo where
  callCount : Int32
  jMethodId : Int64
deriving DecidableEq, Repr

structure ProfilingInfo where
  callsTotal : Int32
  callsNonJava : Int32
  callsGc : Int32
  callsDeopt : Int32
  callsUnknown : Int32
  methods : List MethodSampleInfo
  samples : List CallTraceSampleInfo
  methodInfos : List MethodInfo
deriving DecidableEq, Repr

/-- `Response.ResponseType`. -/
inductive ResponseType where
  | init
  | profInfo
deriving DecidableEq, Repr

structure Response where
  id : Int32
  type : ResponseType
  profInfo : Option ProfilingInfo
deriving DecidableEq, Repr

/-- `Request.RequestType`; a `Request` has no other field. -/
inductive RequestType where
  | startProfiling
  | stopProfiling
  | detach
deriving DecidableEq, Repr

/-- The path of a sample in the flame graph: its method ids, outermost first. -/
def CallTraceSampleInfo.path (sample : CallTraceSampleInfo) : List Int64 :=
  sample.frameList.reverse.map CallFrame.jMethodId

end Protocol
end Franky
