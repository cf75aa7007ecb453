import Mathlib.Data.Fintype.Card
import Mathlib.Data.Nat.ModEq
import Mathlib.Data.List.Count
import Mathlib.Algebra.BigOperators.Fin
import Mathlib.Algebra.Order.BigOperators.Group.Finset
import Mathlib.Tactic.Ring

/-!
# Linear probing in a circular table

A table of `n` slots is searched from a home slot onwards, one slot at a time,
wrapping around at the end, until a slot holds what is looked for, a slot is
free, or the search is back where it began.  The search sees the table through
two tests only, `hit` and `free`; what a slot holds is left open.
-/

namespace Franky
namespace Foundation
namespace LinearProbing

variable {n : Nat} [NeZero n]

theorem size_pos : 0 < n := Nat.pos_of_ne_zero (NeZero.ne n)

/-- The slot `d` places after `b`, around the end of the table. -/
def slotAt (b : Fin n) (d : Nat) : Fin n :=
  ⟨(b.val + d) % n, Nat.mod_lt _ (size_pos)⟩

/-- The slot after `i`: one up, or the first one at the end of the table. -/
def next (i : Fin n) : Fin n :=
  if h : i.val + 1 = n then ⟨0, size_pos⟩
  else ⟨i.val + 1, Nat.lt_of_le_of_ne i.isLt h⟩

/-- How a search ends: at a slot that passes the test, or at the slot where a
new entry goes. -/
inductive Probe (n : Nat) where
  | hit (slot : Fin n)
  | stop (slot : Fin n)
deriving DecidableEq, Repr

/-- The search loop from slot `i` on, for a search that began at `bucket`. -/
def probeFrom (hit free : Fin n -> Bool) (bucket : Fin n) :
    Nat -> Fin n -> Probe n
  | 0, i => Probe.stop i
  | fuel + 1, i =>
      if hit i then Probe.hit i
      else if free i then Probe.stop i
      else if next i = bucket then Probe.stop bucket
      else probeFrom hit free bucket fuel (next i)

/-- The search of the whole table; `n` rounds always suffice. -/
def probe (hit free : Fin n -> Bool) (bucket : Fin n) : Probe n :=
  probeFrom hit free bucket n bucket

/-!
## Slots in probing order
-/

@[simp] theorem slotAt_zero (b : Fin n) : slotAt b 0 = b := by
  apply Fin.ext
  simp [slotAt, Nat.mod_eq_of_lt b.isLt]

theorem slotAt_self (b : Fin n) : slotAt b n = b := by
  apply Fin.ext
  simp [slotAt, Nat.mod_eq_of_lt b.isLt]

theorem next_slotAt (b : Fin n) (d : Nat) :
    next (slotAt b d) = slotAt b (d + 1) := by
  have hlt : (b.val + d) % n < n := Nat.mod_lt _ (size_pos)
  have hadd : (b.val + (d + 1)) % n = ((b.val + d) % n + 1) % n := by
    rw [Nat.mod_add_mod, Nat.add_assoc]
  apply Fin.ext
  unfold next slotAt
  by_cases h : (b.val + d) % n + 1 = n
  · rw [dif_pos h]
    show 0 = (b.val + (d + 1)) % n
    rw [hadd, h, Nat.mod_self]
  · rw [dif_neg h]
    show (b.val + d) % n + 1 = (b.val + (d + 1)) % n
    have hlt' : (b.val + d) % n + 1 < n := by omega
    rw [hadd, Nat.mod_eq_of_lt hlt']

theorem exists_slotAt (b i : Fin n) : exists d, d < n ∧ slotAt b d = i := by
  refine ⟨(i.val + n - b.val) % n, Nat.mod_lt _ (size_pos), ?_⟩
  apply Fin.ext
  show (b.val + (i.val + n - b.val) % n) % n = i.val
  rw [Nat.add_mod_mod, show b.val + (i.val + n - b.val) = i.val + n by omega,
    Nat.add_mod_right, Nat.mod_eq_of_lt i.isLt]

theorem slotAt_injOn {b : Fin n} {d e : Nat} (hd : d < n) (he : e < n)
    (h : slotAt b d = slotAt b e) : d = e := by
  have hval : (b.val + d) % n = (b.val + e) % n := congrArg Fin.val h
  have hmod : d % n = e % n := Nat.ModEq.add_left_cancel' b.val hval
  rwa [Nat.mod_eq_of_lt hd, Nat.mod_eq_of_lt he] at hmod

theorem slotAt_ne_bucket {b : Fin n} {d : Nat} (hpos : 0 < d) (hd : d < n) :
    slotAt b d ≠ b := by
  intro h
  have hzero : d = 0 := slotAt_injOn hd (size_pos) (h.trans (slotAt_zero b).symm)
  omega

/-!
## How a search ends

The first `d` slots are passed when none of them ends the search.  A search
ends at the first slot that is not passed, or back at its bucket.
-/

/-- The first `d` slots from `b` neither pass the test nor are free. -/
def Passed (hit free : Fin n -> Bool) (b : Fin n) (d : Nat) : Prop :=
  forall e, e < d -> hit (slotAt b e) = false ∧ free (slotAt b e) = false

section Search

variable {hit free : Fin n -> Bool} {b : Fin n}


theorem passed_succ {d : Nat} (h : Passed hit free b d)
    (hhit : hit (slotAt b d) = false) (hfree : free (slotAt b d) = false) :
    Passed hit free b (d + 1) := by
  intro e he
  rcases Nat.lt_succ_iff_lt_or_eq.mp he with hlt | heq
  · exact h e hlt
  · rw [heq]
    exact ⟨hhit, hfree⟩

/-- The three ways a search ends. -/
def EndsAs (hit free : Fin n -> Bool) (b : Fin n) (result : Probe n) : Prop :=
  (exists d, d < n ∧ Passed hit free b d ∧ hit (slotAt b d) = true ∧
    result = Probe.hit (slotAt b d)) ∨
  (exists d, d < n ∧ Passed hit free b d ∧ hit (slotAt b d) = false ∧
    free (slotAt b d) = true ∧ result = Probe.stop (slotAt b d)) ∨
  (Passed hit free b n ∧ result = Probe.stop b)

theorem probeFrom_endsAs (fuel d : Nat) (hd : d + fuel = n) (hfuel : 0 < fuel)
    (hpassed : Passed hit free b d) :
    EndsAs hit free b (probeFrom hit free b fuel (slotAt b d)) := by
  induction fuel generalizing d with
  | zero => omega
  | succ fuel ih =>
      unfold probeFrom
      cases hhit : hit (slotAt b d) with
      | true =>
          exact Or.inl ⟨d, by omega, hpassed, hhit, by simp⟩
      | false =>
          cases hfree : free (slotAt b d) with
          | true =>
              exact Or.inr (Or.inl ⟨d, by omega, hpassed, hhit, hfree, by simp⟩)
          | false =>
              have hnext : Passed hit free b (d + 1) :=
                passed_succ hpassed hhit hfree
              rw [next_slotAt]
              cases Nat.eq_zero_or_pos fuel with
              | inl hzero =>
                  have hlast : d + 1 = n := by omega
                  rw [hlast] at hnext
                  rw [hlast, slotAt_self]
                  exact Or.inr (Or.inr ⟨hnext, by simp⟩)
              | inr hpos =>
                  have hne : slotAt b (d + 1) ≠ b :=
                    slotAt_ne_bucket (by omega) (by omega)
                  simpa [hne] using ih (d + 1) (by omega) hpos hnext

theorem passed_zero (hit free : Fin n -> Bool) (b : Fin n) :
    Passed hit free b 0 := by
  intro e he
  cases he

theorem probe_endsAs (hit free : Fin n -> Bool) (b : Fin n) :
    EndsAs hit free b (probe hit free b) := by
  have h := probeFrom_endsAs n 0 (Nat.zero_add n) size_pos
    (passed_zero hit free b)
  rwa [slotAt_zero] at h

theorem hit_of_probe_eq_hit {i : Fin n}
    (h : probe hit free b = Probe.hit i) : hit i = true := by
  rcases probe_endsAs hit free b with
    ⟨d, _, _, hhit, heq⟩ | ⟨d, _, _, _, _, heq⟩ | ⟨_, heq⟩
  · rw [h] at heq
    cases heq
    exact hhit
  · rw [h] at heq
    cases heq
  · rw [h] at heq
    cases heq

/-- A search that ends without a hit ends at a free slot, or has passed them
all. -/
theorem free_or_full_of_probe_eq_stop {i : Fin n}
    (h : probe hit free b = Probe.stop i) :
    (hit i = false ∧ free i = true) ∨
      (i = b ∧ forall j, hit j = false ∧ free j = false) := by
  rcases probe_endsAs hit free b with
    ⟨d, _, _, _, heq⟩ | ⟨d, _, _, hhit, hfree, heq⟩ | ⟨hpassed, heq⟩
  · rw [h] at heq
    cases heq
  · rw [h] at heq
    cases heq
    exact Or.inl ⟨hhit, hfree⟩
  · rw [h] at heq
    cases heq
    refine Or.inr ⟨rfl, ?_⟩
    intro j
    rcases exists_slotAt b j with ⟨d, hd, hslot⟩
    rw [← hslot]
    exact hpassed d hd

theorem probe_eq_hit_of_passed {d : Nat} (hd : d < n)
    (hpassed : Passed hit free b d) (hhit : hit (slotAt b d) = true) :
    probe hit free b = Probe.hit (slotAt b d) := by
  rcases probe_endsAs hit free b with
    ⟨e, _, hbefore, hfound, heq⟩ | ⟨e, _, hbefore, hmissed, hfree, heq⟩ |
      ⟨hbefore, _⟩
  · rw [heq]
    rcases Nat.lt_trichotomy d e with hlt | hsame | hgt
    · rw [(hbefore d hlt).left] at hhit
      cases hhit
    · rw [hsame]
    · rw [(hpassed e hgt).left] at hfound
      cases hfound
  · rcases Nat.lt_trichotomy d e with hlt | hsame | hgt
    · rw [(hbefore d hlt).left] at hhit
      cases hhit
    · rw [← hsame, hhit] at hmissed
      cases hmissed
    · rw [(hpassed e hgt).right] at hfree
      cases hfree
  · rw [(hbefore d hd).left] at hhit
    cases hhit

theorem probe_eq_stop_of_passed {d : Nat} (hd : d < n)
    (hpassed : Passed hit free b d) (hhit : hit (slotAt b d) = false)
    (hfree : free (slotAt b d) = true) :
    probe hit free b = Probe.stop (slotAt b d) := by
  rcases probe_endsAs hit free b with
    ⟨e, _, hbefore, hfound, heq⟩ | ⟨e, _, hbefore, hmissed, hfree', heq⟩ |
      ⟨hbefore, _⟩
  · rcases Nat.lt_trichotomy d e with hlt | hsame | hgt
    · rw [(hbefore d hlt).right] at hfree
      cases hfree
    · rw [← hsame, hhit] at hfound
      cases hfound
    · rw [(hpassed e hgt).left] at hfound
      cases hfound
  · rw [heq]
    rcases Nat.lt_trichotomy d e with hlt | hsame | hgt
    · rw [(hbefore d hlt).right] at hfree
      cases hfree
    · rw [hsame]
    · rw [(hpassed e hgt).right] at hfree'
      cases hfree'
  · rw [(hbefore d hd).right] at hfree
    cases hfree

theorem probe_eq_hit_home (hhit : hit b = true) :
    probe hit free b = Probe.hit b := by
  have h := probe_eq_hit_of_passed size_pos (passed_zero hit free b)
  rw [slotAt_zero] at h
  exact h hhit

theorem probe_eq_stop_home (hhit : hit b = false) (hfree : free b = true) :
    probe hit free b = Probe.stop b := by
  have h := probe_eq_stop_of_passed size_pos (passed_zero hit free b)
  rw [slotAt_zero] at h
  exact h hhit hfree

end Search

/-!
## Totals over a table
-/

section Totals

variable {entry : Type*} (weight : entry -> Int) (table : Fin n -> entry)

omit [NeZero n] in
theorem sum_update (i : Fin n) (x : entry) :
    (∑ j, weight (Function.update table i x j)) =
      (∑ j, weight (table j)) - weight (table i) + weight x := by
  have hrest : forall j, j ∈ Finset.univ.erase i ->
      weight (Function.update table i x j) = weight (table j) := by
    intro j hj
    rw [Function.update_of_ne (Finset.ne_of_mem_erase hj)]
  rw [← Finset.add_sum_erase Finset.univ _ (Finset.mem_univ i),
    ← Finset.add_sum_erase Finset.univ (fun j => weight (table j))
      (Finset.mem_univ i),
    Finset.sum_congr rfl hrest, Function.update_self]
  ring

end Totals

/-!
## Tables of keys

Each slot holds a key or nothing, and each key has a home slot.  The table is
linked when every key it holds can be reached from the key's home past slots
that hold other keys; a search for a key then finds it whenever it is there.
-/

section Keys

variable {key : Type*} (home : key -> Fin n)

/-- Every key is reached from its home past slots that hold other keys. -/
def Linked (keys : Fin n -> Option key) : Prop :=
  forall i k, keys i = some k ->
    exists d, d < n ∧ slotAt (home k) d = i ∧
      forall e, e < d ->
        exists k', keys (slotAt (home k) e) = some k' ∧ k' ≠ k

def findKey [DecidableEq key] (keys : Fin n -> Option key) (k : key) : Probe n :=
  probe (fun i => decide (keys i = some k)) (fun i => (keys i).isNone) (home k)

variable {home} {keys : Fin n -> Option key}

theorem linked_empty : Linked home (fun _ => none) := by
  intro i k h
  cases h

theorem Linked.slot_unique (h : Linked home keys) {i j : Fin n} {k : key}
    (hi : keys i = some k) (hj : keys j = some k) : i = j := by
  rcases h i k hi with ⟨d, _, hdi, hbefore⟩
  rcases h j k hj with ⟨e, _, hej, hbefore'⟩
  rcases Nat.lt_trichotomy d e with hlt | heq | hgt
  · rcases hbefore' d hlt with ⟨k', hk', hne⟩
    rw [hdi, hi] at hk'
    cases hk'
    exact absurd rfl hne
  · rw [← hdi, ← hej, heq]
  · rcases hbefore e hgt with ⟨k', hk', hne⟩
    rw [hej, hj] at hk'
    cases hk'
    exact absurd rfl hne

variable [DecidableEq key]

theorem passed_findKey_iff {k : key} {d : Nat} :
    Passed (fun i => decide (keys i = some k)) (fun i => (keys i).isNone)
        (home k) d <->
      forall e, e < d ->
        exists k', keys (slotAt (home k) e) = some k' ∧ k' ≠ k := by
  constructor
  · intro h e he
    rcases h e he with ⟨hhit, hfree⟩
    cases hkey : keys (slotAt (home k) e) with
    | none => simp [hkey] at hfree
    | some k' => exact ⟨k', rfl, by simpa [hkey] using hhit⟩
  · intro h e he
    rcases h e he with ⟨k', hk', hne⟩
    simp [hk', hne]

theorem Linked.findKey_mem (h : Linked home keys) {i : Fin n} {k : key}
    (hi : keys i = some k) : findKey home keys k = Probe.hit i := by
  rcases h i k hi with ⟨d, hd, hslot, hbefore⟩
  rcases probe_endsAs (fun i => decide (keys i = some k))
      (fun i => (keys i).isNone) (home k) with
    ⟨e, _, _, hhit, heq⟩ | ⟨e, he, hpassed, hhit, hfree, _⟩ | ⟨hpassed, _⟩
  · have hfound : keys (slotAt (home k) e) = some k := of_decide_eq_true hhit
    rw [findKey, heq, h.slot_unique hfound hi]
  · rcases Nat.lt_or_ge e d with hlt | hge
    · rcases hbefore e hlt with ⟨k', hk', _⟩
      simp [hk'] at hfree
    · rcases Nat.lt_or_eq_of_le hge with hgt | hsame
      · have hmissed := (hpassed d hgt).left
        simp [hslot, hi] at hmissed
      · rw [← hsame, hslot] at hhit
        simp [hi] at hhit
  · have hmissed := (hpassed d hd).left
    simp [hslot, hi] at hmissed

/-- A key that is not in a table with an empty slot is sent to an empty slot,
and the table stays linked when it is put there. -/
theorem Linked.findKey_not_mem (h : Linked home keys) {k : key}
    (hk : forall i, keys i ≠ some k) (hroom : exists i, keys i = none) :
    exists i, keys i = none ∧ findKey home keys k = Probe.stop i ∧
      Linked home (Function.update keys i (some k)) := by
  rcases probe_endsAs (fun i => decide (keys i = some k))
      (fun i => (keys i).isNone) (home k) with
    ⟨d, _, _, hhit, _⟩ | ⟨d, hd, hpassed, _, hfree, heq⟩ | ⟨hpassed, _⟩
  · exact absurd (of_decide_eq_true hhit) (hk _)
  · have hempty : keys (slotAt (home k) d) = none := by simpa using hfree
    refine ⟨slotAt (home k) d, hempty, heq, ?_⟩
    intro j k₂ hj
    by_cases hslot : j = slotAt (home k) d
    · subst hslot
      have hk₂ : k = k₂ := by simpa using hj
      subst hk₂
      refine ⟨d, hd, rfl, ?_⟩
      intro e he
      rcases passed_findKey_iff.mp hpassed e he with ⟨k', hk', hne⟩
      refine ⟨k', ?_, hne⟩
      rw [Function.update_of_ne, hk']
      intro hsame
      rw [hsame, hempty] at hk'
      cases hk'
    · rw [Function.update_of_ne hslot] at hj
      rcases h j k₂ hj with ⟨e, he, hej, hbefore⟩
      refine ⟨e, he, hej, ?_⟩
      intro f hf
      rcases hbefore f hf with ⟨k', hk', hne⟩
      refine ⟨k', ?_, hne⟩
      rw [Function.update_of_ne, hk']
      intro hsame
      rw [hsame, hempty] at hk'
      cases hk'
  · rcases hroom with ⟨i, hi⟩
    rcases exists_slotAt (home k) i with ⟨d, hd, hslot⟩
    have hmissed := (hpassed d hd).right
    simp [hslot, hi] at hmissed

/-- A linked table that lacks one of at most `n` keys has an empty slot. -/
theorem Linked.exists_empty (h : Linked home keys) {known : Finset key}
    (hcard : known.card ≤ n) (hknown : forall i k, keys i = some k -> k ∈ known)
    {k : key} (hmem : k ∈ known) (hk : forall i, keys i ≠ some k) :
    exists i, keys i = none := by
  by_contra hfull
  have hsome : forall i, exists k', keys i = some k' := by
    intro i
    cases hi : keys i with
    | none => exact absurd ⟨i, hi⟩ hfull
    | some k' => exact ⟨k', rfl⟩
  choose held hheld using hsome
  have hinj : Function.Injective held := by
    intro i j hij
    apply h.slot_unique (hheld i)
    rw [hij]
    exact hheld j
  have hsub : Finset.univ.image held ⊆ known.erase k := by
    intro k' hk'
    rcases Finset.mem_image.mp hk' with ⟨i, _, rfl⟩
    apply Finset.mem_erase.mpr
    refine ⟨?_, hknown i _ (hheld i)⟩
    intro hsame
    exact hk i (hsame ▸ hheld i)
  have hle := Finset.card_le_card hsub
  rw [Finset.card_image_of_injective _ hinj, Finset.card_univ, Fintype.card_fin,
    Finset.card_erase_of_mem hmem] at hle
  have hpos : 0 < known.card := Finset.card_pos.mpr ⟨k, hmem⟩
  have hn : 0 < n := size_pos
  omega

end Keys

/-!
## Tallying a list of keys

A table that starts empty and is given a list of keys one after the other holds
each of them once, next to the number of times it was given.
-/

section Tally

variable {key : Type*} [DecidableEq key] (home : key -> Fin n)

/-- The table tallies the keys `ks` that were recorded in it. -/
structure Tallies (ks : List key) (keys : Fin n -> Option key)
    (counts : Fin n -> Int) : Prop where
  linked : Linked home keys
  stored : forall k, k ∈ ks -> exists i, keys i = some k
  recorded : forall i k, keys i = some k -> k ∈ ks
  tally : forall i k, keys i = some k -> counts i = ks.count k
  vacant : forall i, keys i = none -> counts i = 0

variable {home} {ks : List key} {keys : Fin n -> Option key}
  {counts : Fin n -> Int}

theorem tallies_empty : Tallies home [] (fun _ => none) (fun _ => 0) where
  linked := linked_empty
  stored := by intro k hk; cases hk
  recorded := by intro i k h; cases h
  tally := by intro i k h; cases h
  vacant := by intro i _; rfl

theorem Tallies.counts_nonneg (h : Tallies home ks keys counts) (i : Fin n) :
    0 ≤ counts i := by
  cases hi : keys i with
  | none => exact le_of_eq (h.vacant i hi).symm
  | some k =>
      rw [h.tally i k hi]
      exact Int.natCast_nonneg _

theorem Tallies.counts_le (h : Tallies home ks keys counts) (i : Fin n) :
    counts i ≤ ks.length := by
  cases hi : keys i with
  | none =>
      rw [h.vacant i hi]
      exact Int.natCast_nonneg _
  | some k =>
      rw [h.tally i k hi]
      exact Int.ofNat_le.mpr List.count_le_length

theorem Tallies.counts_pos_iff (h : Tallies home ks keys counts) (i : Fin n) :
    0 < counts i <-> keys i ≠ none := by
  cases hi : keys i with
  | none => simp [h.vacant i hi]
  | some k =>
      have hpos : 0 < ks.count k := List.count_pos_iff.mpr (h.recorded i k hi)
      rw [h.tally i k hi]
      simp
      exact h.recorded i k hi

theorem Tallies.record_mem (h : Tallies home ks keys counts) {i : Fin n}
    {k : key} (hi : keys i = some k) :
    Tallies home (ks ++ [k]) keys
      (Function.update counts i (counts i + 1)) where
  linked := h.linked
  stored := by
    intro k' hk'
    rcases List.mem_append.mp hk' with hold | hnew
    · exact h.stored k' hold
    · rw [List.mem_singleton.mp hnew]
      exact ⟨i, hi⟩
  recorded := by
    intro j k' hj
    exact List.mem_append_left _ (h.recorded j k' hj)
  tally := by
    intro j k' hj
    by_cases hij : j = i
    · subst hij
      have hk' : k = k' := by simpa [hi] using hj
      subst hk'
      simp [h.tally j k hi]
    · have hne : k ≠ k' := by
        intro hsame
        subst hsame
        exact hij (h.linked.slot_unique hj hi)
      simp [Function.update_of_ne hij, h.tally j k' hj, hne]
  vacant := by
    intro j hj
    have hij : j ≠ i := by
      intro hsame
      rw [hsame, hi] at hj
      cases hj
    rw [Function.update_of_ne hij]
    exact h.vacant j hj

theorem Tallies.record_not_mem (h : Tallies home ks keys counts) {i : Fin n}
    {k : key} (hk : forall j, keys j ≠ some k) (hi : keys i = none)
    (hlinked : Linked home (Function.update keys i (some k))) :
    Tallies home (ks ++ [k]) (Function.update keys i (some k))
      (Function.update counts i 1) where
  linked := hlinked
  stored := by
    intro k' hk'
    rcases List.mem_append.mp hk' with hold | hnew
    · rcases h.stored k' hold with ⟨j, hj⟩
      refine ⟨j, ?_⟩
      have hij : j ≠ i := by
        intro hsame
        rw [hsame, hi] at hj
        cases hj
      rw [Function.update_of_ne hij, hj]
    · rw [List.mem_singleton.mp hnew]
      exact ⟨i, Function.update_self i (some k) keys⟩
  recorded := by
    intro j k' hj
    by_cases hij : j = i
    · subst hij
      have hk' : k = k' := by simpa using hj
      simp [hk']
    · rw [Function.update_of_ne hij] at hj
      exact List.mem_append_left _ (h.recorded j k' hj)
  tally := by
    intro j k' hj
    by_cases hij : j = i
    · subst hij
      have hk' : k = k' := by simpa using hj
      subst hk'
      have hnew : k ∉ ks := by
        intro hmem
        rcases h.stored k hmem with ⟨j', hj'⟩
        exact hk j' hj'
      simp [List.count_eq_zero_of_not_mem hnew]
    · rw [Function.update_of_ne hij] at hj
      have hne : k ≠ k' := by
        intro hsame
        exact hk j (hsame ▸ hj)
      simp [Function.update_of_ne hij, h.tally j k' hj, hne]
  vacant := by
    intro j hj
    have hij : j ≠ i := by
      intro hsame
      rw [hsame, Function.update_self] at hj
      cases hj
    rw [Function.update_of_ne hij] at hj ⊢
    exact h.vacant j hj

/-- A search for one of at most `n` keys ends where the key is, or at an empty
slot that it can take; either way recording it there keeps the tally. -/
theorem Tallies.record (h : Tallies home ks keys counts) {known : Finset key}
    (hcard : known.card ≤ n) (hknown : forall k, k ∈ ks -> k ∈ known) {k : key}
    (hmem : k ∈ known) :
    (exists i, keys i = some k ∧ findKey home keys k = Probe.hit i ∧
      Tallies home (ks ++ [k]) keys
        (Function.update counts i (counts i + 1))) ∨
    (exists i, (forall j, keys j ≠ some k) ∧ keys i = none ∧
      findKey home keys k = Probe.stop i ∧
      Tallies home (ks ++ [k]) (Function.update keys i (some k))
        (Function.update counts i 1)) := by
  by_cases hstored : exists i, keys i = some k
  · rcases hstored with ⟨i, hi⟩
    exact Or.inl ⟨i, hi, h.linked.findKey_mem hi, h.record_mem hi⟩
  · have hnew : forall j, keys j ≠ some k := fun j hj => hstored ⟨j, hj⟩
    have hroom : exists i, keys i = none := by
      apply h.linked.exists_empty hcard _ hmem hnew
      intro i k' hi
      exact hknown k' (h.recorded i k' hi)
    rcases h.linked.findKey_not_mem hnew hroom with ⟨i, hi, hfind, hlinked⟩
    exact Or.inr ⟨i, hnew, hi, hfind, h.record_not_mem hnew hi hlinked⟩

theorem sum_countP_slots (hlinked : Linked home keys)
    (P : key -> Prop) [DecidablePred P]
    (hstored : forall k, k ∈ ks -> exists i, keys i = some k) :
    (∑ i, ks.countP (fun k => decide (P k ∧ keys i = some k))) =
      ks.countP (fun k => decide (P k)) := by
  induction ks with
  | nil => simp
  | cons k ks ih =>
      rcases hstored k List.mem_cons_self with ⟨i, hi⟩
      have hrest := ih (fun k' hk' => hstored k' (List.mem_cons_of_mem k hk'))
      have hslot : forall j, keys j = some k <-> j = i := by
        intro j
        constructor
        · intro hj
          exact hlinked.slot_unique hj hi
        · intro hj
          rw [hj, hi]
      simp only [List.countP_cons, Finset.sum_add_distrib, hrest]
      by_cases hP : P k
      · simp [hP, hslot]
      · simp [hP]

/-- The counts of the slots whose key satisfies `P` add up to the number of
recorded keys that satisfy it. -/
theorem Tallies.sum_counts (h : Tallies home ks keys counts)
    (P : key -> Prop) [DecidablePred P] :
    (∑ i, if (exists k, keys i = some k ∧ P k) then counts i else 0) =
      ks.countP (fun k => decide (P k)) := by
  rw [← sum_countP_slots h.linked P h.stored, Nat.cast_sum]
  apply Finset.sum_congr rfl
  intro i _
  cases hi : keys i with
  | none => simp
  | some k =>
      by_cases hP : P k
      · have hsame : (fun k' => decide (P k' ∧ some k = some k')) =
            fun k' => k' == k := by
          funext k'
          by_cases hk' : k' = k
          · simp [hk', hP]
          · simp [hk', Ne.symm hk']
        rw [if_pos ⟨k, rfl, hP⟩, h.tally i k hi, hsame]
        rfl
      · have hnone : ks.countP (fun k' => decide (P k' ∧ some k = some k')) = 0 := by
          apply List.countP_eq_zero.mpr
          intro k' _
          simp
          intro hP' hk'
          exact hP (hk' ▸ hP')
        rw [hnone, if_neg]
        · rfl
        · intro hexists
          rcases hexists with ⟨k', hk', hP'⟩
          cases hk'
          exact hP hP'

end Tally

end LinearProbing
end Foundation
end Franky
