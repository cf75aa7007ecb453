import Mathlib.Data.List.Infix
import Mathlib.Data.List.Induction
import Mathlib.Tactic.Common

/-!
# Buffered output

A sink takes bytes until it fails.  A buffered writer hands its buffer to the
sink when the buffer is full and one more byte comes, and when the writer is
closed, so before that it knows nothing of what becomes of its last bytes.
-/

namespace Franky
namespace Foundation
namespace ByteSink

variable {byte : Type*}

/-- The bytes a sink has taken, and the number of those that it will still
take before it fails, if it ever does. -/
structure Sink (byte : Type*) where
  accepted : List byte
  room : Option Nat
deriving DecidableEq, Repr

/-- The sink takes so many more bytes. -/
def Sink.Admits (s : Sink byte) (n : Nat) : Prop :=
  forall k, s.room = some k -> n ≤ k

/-- The sink fails after at least `lo` and less than `hi` more bytes. -/
def Sink.FailsWithin (s : Sink byte) (lo hi : Nat) : Prop :=
  exists k, s.room = some k ∧ lo ≤ k ∧ k < hi

/-- What becomes of the sink, and whether it has taken all the bytes. -/
def Sink.write (s : Sink byte) (bs : List byte) : Sink byte × Bool :=
  match s.room with
  | none => ({ s with accepted := s.accepted ++ bs }, true)
  | some k =>
      ({ accepted := s.accepted ++ bs.take k, room := some (k - bs.length) },
        decide (bs.length ≤ k))

/-- A writer: its sink, the bytes it has not handed on yet, and whether the
sink has failed. -/
structure Writer (byte : Type*) where
  sink : Sink byte
  buffer : List byte
  failed : Bool
deriving DecidableEq, Repr

def Writer.onto (sink : Sink byte) : Writer byte :=
  { sink := sink, buffer := [], failed := false }

def Writer.flush (s : Writer byte) : Writer byte :=
  { sink := (s.sink.write s.buffer).1
    buffer := []
    failed := !(s.sink.write s.buffer).2 }

/-- One more byte, for a buffer of `block` bytes. -/
def Writer.put (block : Nat) (s : Writer byte) (b : byte) : Writer byte :=
  if s.failed then s
  else if s.buffer.length < block then { s with buffer := s.buffer ++ [b] }
  else if s.flush.failed then s.flush
  else { s.flush with buffer := [b] }

def Writer.write (block : Nat) (s : Writer byte) (bs : List byte) :
    Writer byte :=
  bs.foldl (Writer.put block) s

def Writer.space (block : Nat) (s : Writer byte) : Nat :=
  if s.failed then 0 else block - s.buffer.length

def Writer.close (s : Writer byte) : Sink byte :=
  if s.failed then s.sink else s.flush.sink

/-!
## Sinks
-/

variable {s : Sink byte} {xs ys bs : List byte} {m n : Nat}

theorem admits_zero (s : Sink byte) : s.Admits 0 :=
  fun k _ => Nat.zero_le k

theorem Sink.Admits.of_le (h : s.Admits n) (hle : m ≤ n) : s.Admits m :=
  fun k hk => hle.trans (h k hk)

theorem failsWithin_iff : s.FailsWithin m n <-> s.Admits m ∧ ¬ s.Admits n := by
  rcases s with ⟨accepted, room⟩
  cases room with
  | none => simp [Sink.FailsWithin, Sink.Admits]
  | some k => simp [Sink.FailsWithin, Sink.Admits]

theorem write_succeeds_iff : (s.write bs).2 = true <-> s.Admits bs.length := by
  rcases s with ⟨accepted, room⟩
  cases room with
  | none => simp [Sink.write, Sink.Admits]
  | some k => simp [Sink.write, Sink.Admits]

/-- Nothing is lost exactly when the sink takes so many bytes. -/
theorem accepted_write_iff :
    (s.write bs).1.accepted = s.accepted ++ bs <-> s.Admits bs.length := by
  rcases s with ⟨accepted, room⟩
  cases room with
  | none => simp [Sink.write, Sink.Admits]
  | some k => simp [Sink.write, Sink.Admits]

theorem exists_accepted_write (s : Sink byte) (bs : List byte) :
    exists taken, taken <+: bs ∧
      (s.write bs).1.accepted = s.accepted ++ taken := by
  rcases s with ⟨accepted, room⟩
  cases room with
  | none => exact ⟨bs, List.prefix_refl bs, rfl⟩
  | some k => exact ⟨bs.take k, List.take_prefix k bs, rfl⟩

theorem write_append (s : Sink byte) (xs ys : List byte) :
    (s.write (xs ++ ys)).1 = ((s.write xs).1.write ys).1 := by
  rcases s with ⟨accepted, room⟩
  cases room with
  | none => simp [Sink.write]
  | some k => simp [Sink.write, List.take_append, Nat.sub_sub]

theorem write_nil (s : Sink byte) : (s.write []).1 = s := by
  rcases s with ⟨accepted, room⟩
  cases room with
  | none => simp [Sink.write]
  | some k => simp [Sink.write]

theorem admits_write_iff :
    s.Admits (xs.length + n) <->
      s.Admits xs.length ∧ (s.write xs).1.Admits n := by
  rcases s with ⟨accepted, room⟩
  cases room with
  | none => simp [Sink.write, Sink.Admits]
  | some k =>
      simp only [Sink.write, Sink.Admits, Option.some.injEq]
      constructor
      · intro h
        have hle := h k rfl
        constructor
        · rintro _ rfl
          lia
        · rintro _ rfl
          lia
      · rintro ⟨hle, hrest⟩ _ rfl
        have hfirst := hle k rfl
        have hsecond := hrest _ rfl
        lia

theorem write_of_not_admits (h : ¬ s.Admits xs.length) :
    (s.write (xs ++ ys)).1 = (s.write xs).1 := by
  rcases s with ⟨accepted, room⟩
  cases room with
  | none => simp [Sink.Admits] at h
  | some k =>
      have hlt : k < xs.length := by
        simpa [Sink.Admits] using h
      simp [Sink.write, List.take_append, Nat.sub_eq_zero_of_le hlt.le]
      lia

/-!
## What is handed on before the writer is closed

All blocks but the last one, which is never empty.
-/

/-- The number of bytes handed on, of `n` bytes. -/
def passedOn (block n : Nat) : Nat := (n - 1) / block * block

variable {block : Nat}

theorem passedOn_le (block n : Nat) : passedOn block n ≤ n :=
  (Nat.div_mul_le_self (n - 1) block).trans (Nat.sub_le n 1)

theorem passedOn_mono (block : Nat) (h : m ≤ n) :
    passedOn block m ≤ passedOn block n :=
  Nat.mul_le_mul_right block (Nat.div_le_div_right (Nat.sub_le_sub_right h 1))

theorem le_passedOn_add (hblock : 0 < block) (n : Nat) :
    n ≤ passedOn block n + block := by
  have hdiv := Nat.div_add_mod' (n - 1) block
  have hmod := Nat.mod_lt (n - 1) hblock
  unfold passedOn
  lia

theorem passedOn_eq_of_le (hm : 0 < m) (hle : m ≤ n)
    (hroom : n ≤ passedOn block m + block) :
    passedOn block n = passedOn block m := by
  unfold passedOn at hroom ⊢
  have hlow := Nat.div_mul_le_self (m - 1) block
  congr 1
  apply Nat.div_eq_of_lt_le
  · lia
  · rw [Nat.succ_mul]
    lia

theorem passedOn_succ_of_full (hfull : passedOn block n + block = n) :
    passedOn block (n + 1) = n := by
  unfold passedOn at hfull ⊢
  have hdvd : block ∣ n := by
    rw [← hfull, ← Nat.succ_mul]
    exact Nat.dvd_mul_left _ _
  rw [Nat.add_sub_cancel, Nat.div_mul_cancel hdvd]

/-!
## Writers
-/

/-- The writer was opened on `sink` and has been given the bytes. -/
structure Given (block : Nat) (sink : Sink byte) (bs : List byte)
    (w : Writer byte) : Prop where
  failed : w.failed = true <-> ¬ sink.Admits (passedOn block bs.length)
  sink : w.sink = (sink.write (bs.take (passedOn block bs.length))).1
  buffer : w.failed = false -> w.buffer = bs.drop (passedOn block bs.length)

variable {sink : Sink byte} {w : Writer byte}

theorem given_onto (block : Nat) (sink : Sink byte) :
    Given block sink [] (Writer.onto sink) where
  failed := by
    apply iff_of_false Bool.false_ne_true
    exact not_not_intro ((admits_zero sink).of_le (passedOn_le block 0))
  sink := by
    rw [List.take_nil, write_nil]
    rfl
  buffer := by
    intro _
    rw [List.drop_nil]
    rfl

theorem Given.admits (h : Given block sink bs w) (hw : w.failed = false) :
    sink.Admits (passedOn block bs.length) := by
  by_contra hnot
  rw [h.failed.mpr hnot] at hw
  cases hw

theorem Given.buffer_length (h : Given block sink bs w)
    (hw : w.failed = false) :
    w.buffer.length = bs.length - passedOn block bs.length := by
  rw [h.buffer hw, List.length_drop]

/-- What has been handed on, and the buffer, are all the bytes. -/
theorem Given.sink_flush (h : Given block sink bs w) (hw : w.failed = false) :
    w.flush.sink = (sink.write bs).1 := by
  change (w.sink.write w.buffer).1 = _
  rw [h.sink, h.buffer hw, ← write_append, List.take_append_drop]

theorem Given.failed_flush (h : Given block sink bs w)
    (hw : w.failed = false) :
    w.flush.failed = true <-> ¬ sink.Admits bs.length := by
  have hlength : (bs.take (passedOn block bs.length)).length =
      passedOn block bs.length :=
    List.length_take_of_le (passedOn_le block bs.length)
  have hsplit : bs.length = (bs.take (passedOn block bs.length)).length +
      w.buffer.length := by
    rw [hlength, h.buffer_length hw]
    exact (Nat.add_sub_of_le (passedOn_le block bs.length)).symm
  have hall : sink.Admits bs.length <->
      sink.Admits (passedOn block bs.length) ∧
        w.sink.Admits w.buffer.length := by
    conv_lhs => rw [hsplit]
    rw [admits_write_iff, hlength, h.sink]
  change (!(w.sink.write w.buffer).2) = true <-> _
  rw [Bool.not_eq_true', ← Bool.not_eq_true, write_succeeds_iff, hall]
  exact not_congr (and_iff_right (h.admits hw)).symm

theorem Given.sink_failed (h : Given block sink bs w) (hw : w.failed = true)
    {ys : List byte} (hbegins : bs.take (passedOn block bs.length) <+: ys) :
    w.sink = (sink.write ys).1 := by
  rcases hbegins with ⟨rest, rfl⟩
  have hnot : ¬ sink.Admits
      (bs.take (passedOn block bs.length)).length := by
    rw [List.length_take_of_le (passedOn_le block bs.length)]
    exact h.failed.mp hw
  rw [h.sink, write_of_not_admits hnot]

theorem Given.put_failed (h : Given block sink bs w) (b : byte)
    (hw : w.failed = true) : Given block sink (bs ++ [b]) (w.put block b) := by
  have hlength : (bs ++ [b]).length = bs.length + 1 := List.length_append
  have hmono := passedOn_mono block (Nat.le_succ bs.length)
  have hput : w.put block b = w := by
    rw [Writer.put, hw, if_pos rfl]
  rw [hput]
  constructor
  · apply iff_of_true hw
    rw [hlength]
    exact fun hadmits => h.failed.mp hw (hadmits.of_le hmono)
  · apply h.sink_failed hw
    rw [hlength,
      ← List.take_append_of_le_length (passedOn_le block bs.length)]
    exact List.take_prefix_take_left hmono
  · intro hnot
    rw [hw] at hnot
    cases hnot

theorem Given.put_room (h : Given block sink bs w) (b : byte)
    (hw : w.failed = false) (hroom : w.buffer.length < block) :
    Given block sink (bs ++ [b]) (w.put block b) := by
  have hlength : (bs ++ [b]).length = bs.length + 1 := List.length_append
  have hle := passedOn_le block bs.length
  have hput : w.put block b = { w with buffer := w.buffer ++ [b] } := by
    rw [Writer.put, hw, if_neg Bool.false_ne_true, if_pos hroom]
  have hsame : passedOn block (bs.length + 1) = passedOn block bs.length := by
    rw [h.buffer_length hw] at hroom
    rcases Nat.eq_zero_or_pos bs.length with hzero | hpos
    · rw [hzero]
      rfl
    · apply passedOn_eq_of_le hpos (Nat.le_succ _)
      lia
  rw [hput]
  constructor
  · rw [hlength, hsame]
    exact h.failed
  · rw [hlength, hsame, List.take_append_of_le_length hle]
    exact h.sink
  · intro _
    rw [hlength, hsame, List.drop_append_of_le_length hle, ← h.buffer hw]

theorem Given.put_full (h : Given block sink bs w) (b : byte)
    (hw : w.failed = false) (hblock : 0 < block)
    (hfull : block ≤ w.buffer.length) :
    Given block sink (bs ++ [b]) (w.put block b) := by
  have hlength : (bs ++ [b]).length = bs.length + 1 := List.length_append
  have hnext : passedOn block (bs.length + 1) = bs.length := by
    apply passedOn_succ_of_full
    have hle := passedOn_le block bs.length
    have hadd := le_passedOn_add hblock bs.length
    have hbuffer := h.buffer_length hw
    lia
  have hput : w.put block b =
      if w.flush.failed then w.flush
      else { w.flush with buffer := [b] } := by
    rw [Writer.put, hw, if_neg Bool.false_ne_true,
      if_neg (Nat.not_lt.mpr hfull)]
  have hsink : (w.put block b).sink = w.flush.sink := by
    rw [hput]
    split <;> rfl
  have hfailed : (w.put block b).failed = w.flush.failed := by
    rw [hput]
    split <;> rfl
  constructor
  · rw [hfailed, hlength, hnext]
    exact h.failed_flush hw
  · rw [hsink, hlength, hnext, List.take_left]
    exact h.sink_flush hw
  · intro hnot
    rw [hfailed] at hnot
    rw [hput, hnot, if_neg Bool.false_ne_true, hlength, hnext, List.drop_left]

theorem Given.put (hblock : 0 < block) (h : Given block sink bs w)
    (b : byte) : Given block sink (bs ++ [b]) (w.put block b) := by
  cases hw : w.failed with
  | true => exact h.put_failed b hw
  | false =>
      rcases Nat.lt_or_ge w.buffer.length block with hroom | hfull
      · exact h.put_room b hw hroom
      · exact h.put_full b hw hblock hfull

theorem Given.write (hblock : 0 < block) (h : Given block sink bs w)
    (ys : List byte) : Given block sink (bs ++ ys) (w.write block ys) := by
  induction ys generalizing bs w with
  | nil =>
      rw [List.append_nil]
      exact h
  | cons y ys ih =>
      have hrest := ih (h.put hblock y)
      rw [List.append_assoc] at hrest
      exact hrest

theorem Given.passedOn_of_space (h : Given block sink bs w)
    (hw : w.failed = false) (hbs : 0 < bs.length) (hn : n ≤ w.space block) :
    passedOn block (bs.length + n) = passedOn block bs.length := by
  have hbuffer := h.buffer_length hw
  have hle := passedOn_le block bs.length
  rw [Writer.space, hw, if_neg Bool.false_ne_true] at hn
  rcases Nat.eq_zero_or_pos n with rfl | hpos
  · rfl
  · apply passedOn_eq_of_le hbs (Nat.le_add_right _ _)
    lia

/-- When the writer is gone, the sink is as it would be without a buffer. -/
theorem Given.close (h : Given block sink bs w) :
    w.close = (sink.write bs).1 := by
  unfold Writer.close
  split
  · next hw => exact h.sink_failed hw (List.take_prefix _ bs)
  · next hw => exact h.sink_flush (Bool.eq_false_iff.mpr hw)

end ByteSink
end Foundation
end Franky
