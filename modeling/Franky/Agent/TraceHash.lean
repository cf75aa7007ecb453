import Franky.Foundation.Mixing
import Franky.Agent.Profiler

/-!
# What the hash of a trace tells apart

Each round of the hash packs a frame into a key and mixes the key in.  The
mixing loses nothing, so two traces that differ in one frame have one hash
exactly when the keys of the two frames are the same.
-/

namespace Franky
namespace Agent

open Foundation
open Foundation.Mixing

/-- The byte code index as the upper half of a key. -/
def bciWord (bci : Int32) : UInt64 := bci.toInt64.toUInt64

/-- The key that a frame is packed into. -/
def AsgctCallFrame.key (frame : AsgctCallFrame) : UInt64 :=
  (bciWord frame.bci <<< 32) ^^^ frame.methodId

/-- How a key is mixed before it goes into the hash. -/
def mixKey (key : UInt64) : UInt64 :=
  xorShift 47 (key * hashM) * hashM

/-- The steps of `hashCallTrace` after its loop. -/
def finishHash (h : UInt64) : UInt64 :=
  xorShift 47 (xorShift 47 h * hashM)

theorem hashFrame_eq (h : UInt64) (frame : AsgctCallFrame) :
    hashFrame h frame = (h ^^^ mixKey frame.key) * hashM := rfl

/-- `Profiler::hashCallTrace` of a trace of any number of frames, which are
those that the loop visits. -/
def hashFrames (frames : List AsgctCallFrame) : UInt64 :=
  let h := (Int32.ofInt frames.length).toInt64.toUInt64 * hashM
  let h := frames.foldl hashFrame h
  let h := h ^^^ (h >>> 47)
  let h := h * hashM
  h ^^^ (h >>> 47)

theorem hashFrames_eq (frames : List AsgctCallFrame) :
    hashFrames frames =
      finishHash (frames.foldl hashFrame
        ((Int32.ofInt frames.length).toInt64.toUInt64 * hashM)) := rfl

theorem hashCallTrace_eq_hashFrames {trace : AsgctCallTrace}
    (h : 0 ≤ trace.numFrames.toInt) :
    hashCallTrace trace = hashFrames trace.frameList := by
  have hlength : Int32.ofInt trace.frameList.length = trace.numFrames := by
    rw [length_frameList, Int.toNat_of_nonneg h, Int32.ofInt_toInt]
  unfold hashCallTrace hashFrames
  rw [hlength]

/-!
## Every step is injective
-/

theorem mul_hashM_injective : Function.Injective (fun x => x * hashM) :=
  mul_injective (show hashM * 0x5f7a0ea7e59b19bd = 1 by decide)

theorem xorShift_47_injective : Function.Injective (xorShift 47) :=
  xorShift_injective (by decide) (by decide)

theorem mixKey_injective : Function.Injective mixKey :=
  mul_hashM_injective.comp (xorShift_47_injective.comp mul_hashM_injective)

theorem finishHash_injective : Function.Injective finishHash :=
  xorShift_47_injective.comp (mul_hashM_injective.comp xorShift_47_injective)

theorem hashFrame_injective (frame : AsgctCallFrame) :
    Function.Injective (fun h => hashFrame h frame) := by
  intro h h' heq
  exact (UInt64.xor_left_inj _).mp (mul_hashM_injective heq)

theorem hashFrame_eq_iff (h : UInt64) (frame frame' : AsgctCallFrame) :
    hashFrame h frame = hashFrame h frame' <-> frame.key = frame'.key := by
  rw [hashFrame_eq, hashFrame_eq, mul_hashM_injective.eq_iff,
    UInt64.xor_right_inj, mixKey_injective.eq_iff]

/-- Replacing a frame leaves the hash as it was exactly when the key of the
frame stays the same. -/
theorem hashFrames_set_iff (frames : List AsgctCallFrame) {i : Nat}
    (hi : i < frames.length) (frame : AsgctCallFrame) :
    hashFrames (frames.set i frame) = hashFrames frames <->
      frame.key = frames[i].key := by
  have hset : frames.take i ++ frame :: frames.drop (i + 1) =
      frames.set i frame := by
    rw [List.set_eq_take_append_cons_drop, if_pos hi]
  have hsame : frames.take i ++ frames[i] :: frames.drop (i + 1) =
      frames := by
    rw [List.getElem_cons_drop, List.take_append_drop]
  have hfold := foldl_replace_iff hashFrame_injective
    ((Int32.ofInt frames.length).toInt64.toUInt64 * hashM) (frames.take i)
    (frames.drop (i + 1)) frame frames[i]
  rw [hset, hsame, hashFrame_eq_iff] at hfold
  rw [hashFrames_eq, hashFrames_eq, finishHash_injective.eq_iff,
    List.length_set]
  exact hfold

/-!
## One component of a frame
-/

theorem bciWord_shift_injective :
    Function.Injective (fun bci => bciWord bci <<< 32) := by
  intro bci bci' heq
  apply Int32.toBitVec_inj.mp
  exact signExtend_shiftLeft_injective (w := 32) (v := 64) (s := 32) (by decide)
    (UInt64.toBitVec_inj.mpr heq)

theorem key_methodId_injective (bci : Int32) :
    Function.Injective (fun methodId => AsgctCallFrame.key ⟨bci, methodId⟩) :=
  fun _ _ heq => (UInt64.xor_right_inj _).mp heq

theorem key_bci_injective (methodId : JMethodId) :
    Function.Injective (fun bci => AsgctCallFrame.key ⟨bci, methodId⟩) :=
  fun _ _ heq => bciWord_shift_injective ((UInt64.xor_left_inj _).mp heq)

/-- Replacing only the method id of one frame, or only its byte code index, by
a different one changes the hash. -/
theorem hashFrames_replace_ne (frames : List AsgctCallFrame) (i : Nat)
    (hi : i < frames.length) :
    (forall methodId, methodId ≠ frames[i].methodId ->
      hashFrames (frames.set i { frames[i] with methodId := methodId }) ≠
        hashFrames frames) ∧
    (forall bci, bci ≠ frames[i].bci ->
      hashFrames (frames.set i { frames[i] with bci := bci }) ≠
        hashFrames frames) := by
  constructor
  · intro methodId hne heq
    apply hne
    apply key_methodId_injective frames[i].bci
    exact (hashFrames_set_iff frames hi _).mp heq
  · intro bci hne heq
    apply hne
    apply key_bci_injective frames[i].methodId
    exact (hashFrames_set_iff frames hi _).mp heq

/-- A bottom frame with another method, or with another byte code index. -/
theorem hashFrames_replace_ne_bottom :
    hashFrames [⟨3, 0x7f3a079c28e0⟩, ⟨17, 0x7f3a508e9f58⟩] ≠
        hashFrames [⟨3, 0x7f3a079c28e0⟩, ⟨17, 0x7f3a508e9f60⟩] ∧
      hashFrames [⟨3, 0x7f3a079c28e0⟩, ⟨-1, 0x7f3a508e9f60⟩] ≠
        hashFrames [⟨3, 0x7f3a079c28e0⟩, ⟨17, 0x7f3a508e9f60⟩] :=
  ⟨(hashFrames_replace_ne [⟨3, 0x7f3a079c28e0⟩, ⟨17, 0x7f3a508e9f60⟩] 1
      (by decide)).left 0x7f3a508e9f58 (by decide),
    (hashFrames_replace_ne [⟨3, 0x7f3a079c28e0⟩, ⟨17, 0x7f3a508e9f60⟩] 1
      (by decide)).right (-1) (by decide)⟩

/-!
## Traces that differ in one frame
-/

/-- The traces have one length, and the same frames but for frame `i`. -/
structure AgreeButAt (t t' : AsgctCallTrace) (i : Fin maxFrames) : Prop where
  numFrames : t.numFrames = t'.numFrames
  lt : (i.val : Int) < t.numFrames.toInt
  frames : forall j, j ≠ i -> (j.val : Int) < t.numFrames.toInt ->
    t.frames j = t'.frames j

variable {t t' : AsgctCallTrace} {i : Fin maxFrames}

theorem AgreeButAt.frameList_set (h : AgreeButAt t t' i) :
    t'.frameList = t.frameList.set i.val (t'.frames i) := by
  apply List.ext_getElem
  · rw [List.length_set, length_frameList, length_frameList, h.numFrames]
  · intro j hj hj'
    have hlen := hj
    rw [length_frameList, ← h.numFrames] at hlen
    have hmax : j < maxFrames := by
      have hle := t.numFrames_le
      lia
    rw [List.length_set] at hj'
    rw [getElem_frameList t' hj hmax, List.getElem_set,
      getElem_frameList t hj' hmax]
    split
    · rename_i hsame
      subst hsame
      rfl
    · rename_i hne
      refine (h.frames ⟨j, hmax⟩ ?_ ?_).symm
      · intro hsame
        exact hne (congrArg Fin.val hsame).symm
      · dsimp only
        lia

theorem AgreeButAt.hash_eq_iff (h : AgreeButAt t t' i) :
    hashCallTrace t = hashCallTrace t' <->
      (t.frames i).key = (t'.frames i).key := by
  have hnonneg : 0 ≤ t.numFrames.toInt :=
    (Int.natCast_nonneg i.val).trans h.lt.le
  have hnonneg' : 0 ≤ t'.numFrames.toInt := by
    rw [← h.numFrames]
    exact hnonneg
  have hi : i.val < t.frameList.length := by
    rw [length_frameList]
    exact Int.lt_toNat.mpr h.lt
  rw [hashCallTrace_eq_hashFrames hnonneg,
    hashCallTrace_eq_hashFrames hnonneg', h.frameList_set,
    eq_comm (a := hashFrames t.frameList), hashFrames_set_iff _ hi,
    getElem_frameList t hi i.isLt]
  exact eq_comm

end Agent
end Franky
