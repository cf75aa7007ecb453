import Mathlib.Data.List.Infix
import Mathlib.Tactic.Common

/-!
# Buffered input

A stream delivers its bytes in chunks, one for each read.  A buffered reader
takes a new chunk only when its buffer is empty and a byte is asked for, so what
is left in its buffer depends on where the chunks end.
-/

namespace Franky
namespace Foundation
namespace ByteStream

variable {byte : Type*}

/-- A reader: its buffer, and the chunks that the stream will still deliver. -/
structure Input (byte : Type*) where
  buffer : List byte
  pending : List (List byte)

def Input.fresh (chunks : List (List byte)) : Input byte :=
  { buffer := [], pending := chunks }

/-- A reader of bytes that are all there. -/
def Input.ofBytes (bytes : List byte) : Input byte :=
  { buffer := bytes, pending := [] }

/-- The bytes the reader will still see. -/
def Input.rest (s : Input byte) : List byte :=
  s.buffer ++ s.pending.flatten

@[simp] theorem Input.rest_ofBytes (bytes : List byte) :
    (Input.ofBytes bytes).rest = bytes :=
  List.append_nil bytes

/-- The next byte.  A chunk without bytes is how the stream reports its end. -/
def Input.next (s : Input byte) : Option (byte × Input byte) :=
  match s.buffer, s.pending with
  | b :: bs, chunks => some (b, { buffer := bs, pending := chunks })
  | [], (b :: bs) :: chunks => some (b, { buffer := bs, pending := chunks })
  | [], _ => none

/-- As many bytes as asked for, or those up to the end. -/
def Input.take : Nat -> Input byte -> List byte × Input byte
  | 0, s => ([], s)
  | n + 1, s =>
      match s.next with
      | none => ([], s)
      | some (b, s) => (b :: (Input.take n s).1, (Input.take n s).2)

/-- A chunk ends after the first `n` bytes. -/
def Boundary (chunks : List (List byte)) (n : Nat) : Prop :=
  exists front back, chunks = front ++ back ∧ front.flatten.length = n

/-- The reader has handed out these bytes of the stream, and it has taken no
chunk before it was needed. -/
structure Consumed (chunks : List (List byte)) (bytes : List byte)
    (s : Input byte) : Prop where
  split : exists front, chunks = front ++ s.pending ∧
    front.flatten = bytes ++ s.buffer ∧
      (front = [] ∨ front.dropLast.flatten.length < bytes.length)

theorem consumed_fresh (chunks : List (List byte)) :
    Consumed chunks [] (Input.fresh chunks) :=
  ⟨⟨[], rfl, rfl, Or.inl rfl⟩⟩

variable {chunks : List (List byte)} {bytes : List byte} {s s' : Input byte}
  {b : byte}

theorem next_cases (h : s.next = some (b, s')) :
    (s.buffer = b :: s'.buffer ∧ s'.pending = s.pending) ∨
      (s.buffer = [] ∧ s.pending = (b :: s'.buffer) :: s'.pending) := by
  rcases s with ⟨buffer, pending⟩
  cases buffer with
  | cons b' bs =>
      cases h
      exact Or.inl ⟨rfl, rfl⟩
  | nil =>
      cases pending with
      | nil => cases h
      | cons chunk pending =>
          cases chunk with
          | nil => cases h
          | cons b' bs =>
              cases h
              exact Or.inr ⟨rfl, rfl⟩

theorem rest_of_next (h : s.next = some (b, s')) : s.rest = b :: s'.rest := by
  rcases next_cases h with ⟨hbuffer, hpending⟩ | ⟨hbuffer, hpending⟩
  · rw [Input.rest, hbuffer, ← hpending]
    rfl
  · rw [Input.rest, hbuffer, hpending]
    rfl

theorem next_pending_length (h : s.next = some (b, s')) :
    s'.pending.length ≤ s.pending.length := by
  rcases next_cases h with ⟨_, hpending⟩ | ⟨_, hpending⟩
  · rw [hpending]
  · rw [hpending]
    exact Nat.le_succ _

theorem fresh_next_pending_length (h : (Input.fresh chunks).next = some (b, s')) :
    s'.pending.length < chunks.length := by
  rcases next_cases h with ⟨hbuffer, _⟩ | ⟨_, hpending⟩
  · cases hbuffer
  · have hchunks : chunks = (b :: s'.buffer) :: s'.pending := hpending
    rw [hchunks]
    exact Nat.lt_succ_self _

theorem take_pending_length (n : Nat) (s : Input byte) :
    (s.take n).2.pending.length ≤ s.pending.length := by
  induction n generalizing s with
  | zero => exact le_refl _
  | succ n ih =>
      simp only [Input.take]
      cases hnext : s.next with
      | none => exact le_refl _
      | some step =>
          rcases step with ⟨b, s'⟩
          exact (ih s').trans (next_pending_length hnext)

/-- While bytes are left, and every chunk has some, there is a next byte. -/
theorem next_of_rest (hchunks : forall chunk, chunk ∈ s.pending -> chunk ≠ [])
    {bs : List byte} (hrest : s.rest = b :: bs) :
    exists s', s.next = some (b, s') ∧ s'.rest = bs ∧
      forall chunk, chunk ∈ s'.pending -> chunk ≠ [] := by
  rcases s with ⟨buffer, pending⟩
  cases buffer with
  | cons b' buffer =>
      cases hrest
      exact ⟨{ buffer := buffer, pending := pending }, rfl, rfl, hchunks⟩
  | nil =>
      cases pending with
      | nil => cases hrest
      | cons chunk pending =>
          cases chunk with
          | nil => exact absurd rfl (hchunks [] List.mem_cons_self)
          | cons b' buffer =>
              cases hrest
              refine ⟨{ buffer := buffer, pending := pending }, rfl, rfl, ?_⟩
              intro chunk hmem
              exact hchunks chunk (List.mem_cons_of_mem _ hmem)

theorem Consumed.next (h : Consumed chunks bytes s)
    (hnext : s.next = some (b, s')) : Consumed chunks (bytes ++ [b]) s' := by
  rcases h.split with ⟨front, hsplit, hflat, hneeded⟩
  rcases next_cases hnext with ⟨hbuffer, hpending⟩ | ⟨hbuffer, hpending⟩
  · refine ⟨⟨front, ?_, ?_, ?_⟩⟩
    · rw [hpending]
      exact hsplit
    · rw [hflat, hbuffer, List.append_assoc]
      rfl
    · rcases hneeded with hnil | hlt
      · exact Or.inl hnil
      · right
        rw [List.length_append]
        exact Nat.lt_add_right _ hlt
  · refine ⟨⟨front ++ [b :: s'.buffer], ?_, ?_, Or.inr ?_⟩⟩
    · rw [hsplit, hpending, List.append_assoc]
      rfl
    · rw [List.flatten_append, hflat, hbuffer]
      simp
    · rw [List.dropLast_concat, hflat, hbuffer]
      simp

theorem Consumed.buffer_eq_nil_iff (h : Consumed chunks bytes s) :
    s.buffer = [] <-> Boundary chunks bytes.length := by
  rcases h.split with ⟨front, hsplit, hflat, hneeded⟩
  have hlength := congrArg List.length hflat
  rw [List.length_append] at hlength
  constructor
  · intro hbuffer
    refine ⟨front, s.pending, hsplit, ?_⟩
    rw [hlength, hbuffer]
    rfl
  · intro hboundary
    rcases hboundary with ⟨front', back', hsplit', hlength'⟩
    rw [hsplit] at hsplit'
    apply List.eq_nil_of_length_eq_zero
    -- compare the chunks taken with those up to the boundary
    rcases List.append_eq_append_iff.mp hsplit' with
      ⟨more, hmore, _⟩ | ⟨extra, hextra, _⟩
    · rw [hmore, List.flatten_append, List.length_append] at hlength'
      lia
    · rcases List.eq_nil_or_concat extra with hnil | ⟨init, last, hlast⟩
      · rw [hnil, List.append_nil] at hextra
        rw [hextra] at hlength
        lia
      · rcases hneeded with hnil | hlt
        · rw [hnil, hlast] at hextra
          simp at hextra
        · rw [hextra, hlast, List.concat_eq_append, ← List.append_assoc,
            List.dropLast_concat, List.flatten_append,
            List.length_append] at hlt
          lia

theorem Consumed.rest_eq (h : Consumed chunks bytes s) :
    chunks.flatten = bytes ++ s.rest := by
  rcases h.split with ⟨front, hsplit, hflat, _⟩
  rw [hsplit, List.flatten_append, hflat, Input.rest, List.append_assoc]

theorem Consumed.split_of_buffer_nil (h : Consumed chunks bytes s)
    (hbuffer : s.buffer = []) :
    exists taken, chunks = taken ++ s.pending ∧ taken.flatten = bytes := by
  rcases h.split with ⟨taken, htaken, hflat, _⟩
  rw [hbuffer, List.append_nil] at hflat
  exact ⟨taken, htaken, hflat⟩

theorem Consumed.rest_of_flatten (h : Consumed chunks bytes s)
    {rest : List byte} (hflat : chunks.flatten = bytes ++ rest) :
    s.rest = rest := by
  rw [h.rest_eq] at hflat
  exact List.append_cancel_left hflat

theorem Consumed.pending_length (h : Consumed chunks bytes s) :
    chunks.flatten.length =
      bytes.length + s.buffer.length + s.pending.flatten.length := by
  rw [h.rest_eq, Input.rest, List.length_append, List.length_append]
  lia

theorem boundary_append_iff {front back : List (List byte)} {n : Nat} :
    Boundary (front ++ back) (front.flatten.length + n) <-> Boundary back n := by
  constructor
  · intro h
    rcases h with ⟨front', back', hsplit, hlength⟩
    rcases List.append_eq_append_iff.mp hsplit with
      ⟨more, hmore, hback⟩ | ⟨extra, hextra, _⟩
    · refine ⟨more, back', hback, ?_⟩
      rw [hmore, List.flatten_append, List.length_append] at hlength
      lia
    · refine ⟨[], back, rfl, ?_⟩
      rw [hextra, List.flatten_append, List.length_append] at hlength
      change 0 = n
      lia
  · intro h
    rcases h with ⟨front', back', hsplit, hlength⟩
    refine ⟨front ++ front', back', ?_, ?_⟩
    · rw [hsplit, List.append_assoc]
    · rw [List.flatten_append, List.length_append, hlength]

/-- Where enough bytes are left, a reader takes just these. -/
theorem Consumed.take (h : Consumed chunks bytes s)
    (hchunks : forall chunk, chunk ∈ s.pending -> chunk ≠ [])
    {bs rest : List byte} (hrest : s.rest = bs ++ rest) :
    exists s', s.take bs.length = (bs, s') ∧
      Consumed chunks (bytes ++ bs) s' := by
  induction bs generalizing s bytes with
  | nil =>
      refine ⟨s, rfl, ?_⟩
      rw [List.append_nil]
      exact h
  | cons b bs ih =>
      rcases next_of_rest hchunks hrest with ⟨s₁, hnext, hrest₁, hchunks₁⟩
      rcases ih (h.next hnext) hchunks₁ hrest₁ with ⟨s', htake, hconsumed⟩
      refine ⟨s', ?_, ?_⟩
      · simp only [List.length_cons, Input.take, hnext, htake]
      · rw [List.append_assoc] at hconsumed
        exact hconsumed

end ByteStream
end Foundation
end Franky
