import Mathlib.Logic.Function.Basic
import Mathlib.Data.List.Infix
import Franky.Foundation.Machine

/-!
# Tables that remember answers by a key

A question is answered from the table when one with its key has been asked
before, and is worked out and put into the table otherwise.  Every question gets
the answer to the first one with its key, which is its own answer where the key
decides the answer.
-/

namespace Franky
namespace Foundation
namespace Memo

variable {question answer tag : Type*} [DecidableEq tag]

/-- The answer that is remembered for the key, or else the one that is worked
out, with the table afterwards. -/
def getOrPut (table : tag -> Option answer) (k : tag) (worked : answer) :
    answer × (tag -> Option answer) :=
  match table k with
  | some remembered => (remembered, table)
  | none => (worked, Function.update table k (some worked))

section Asking

variable (key : question -> tag) (solve : question -> answer)

def ask (table : tag -> Option answer) (q : question) :
    answer × (tag -> Option answer) :=
  getOrPut table (key q) (solve q)

def tableAfter (asked : List question) : tag -> Option answer :=
  Machine.run (fun table q => (ask key solve table q).2) (fun _ => none) asked

/-- What the next question is answered then. -/
def answerAfter (asked : List question) (q : question) : answer :=
  (ask key solve (tableAfter key solve asked) q).1

end Asking

variable {key : question -> tag} {solve : question -> answer}

theorem getOrPut_fst (table : tag -> Option answer) (k : tag)
    (worked : answer) :
    (getOrPut table k worked).1 = (table k).getD worked := by
  unfold getOrPut
  cases table k <;> rfl

theorem getOrPut_snd (table : tag -> Option answer) (k k' : tag)
    (worked : answer) :
    (getOrPut table k worked).2 k' =
      if k = k' then some ((table k).getD worked) else table k' := by
  unfold getOrPut
  cases htable : table k with
  | none =>
      rcases eq_or_ne k k' with rfl | hne
      · simp
      · simp [hne, hne.symm]
  | some remembered =>
      rcases eq_or_ne k k' with rfl | hne
      · simp [htable]
      · simp [hne]

theorem tableAfter_concat (asked : List question) (q : question) (k : tag) :
    tableAfter key solve (asked ++ [q]) k =
      if key q = k then
        some ((tableAfter key solve asked (key q)).getD (solve q))
      else tableAfter key solve asked k := by
  unfold tableAfter
  rw [Machine.run_concat]
  exact getOrPut_snd _ _ _ _

theorem tableAfter_eq (asked : List question) (k : tag) :
    tableAfter key solve asked k =
      (asked.find? (fun q => key q = k)).map solve := by
  induction asked using List.reverseRecOn generalizing k with
  | nil => rfl
  | append_singleton asked q ih =>
      rw [tableAfter_concat, List.find?_append, ih, ih]
      rcases eq_or_ne (key q) k with rfl | hne
      · rw [if_pos rfl]
        cases asked.find? (fun q' => key q' = key q) <;> simp
      · rw [if_neg hne]
        cases asked.find? (fun q' => key q' = k) <;> simp [hne]

theorem answerAfter_eq (asked : List question) (q : question) :
    answerAfter key solve asked q =
      ((asked.find? (fun q' => key q' = key q)).map solve).getD (solve q) := by
  unfold answerAfter ask
  rw [getOrPut_fst, tableAfter_eq]

/-- A question is answered for itself where those with its key that were asked
before have the same answer. -/
theorem answerAfter_own {asked : List question} {q : question}
    (h : forall q', q' ∈ asked -> key q' = key q -> solve q' = solve q) :
    answerAfter key solve asked q = solve q := by
  rw [answerAfter_eq]
  cases hfind : asked.find? (fun q' => key q' = key q) with
  | none => rfl
  | some first =>
      have hkey : key first = key q := by
        simpa using List.find?_some hfind
      exact h first (List.mem_of_find?_eq_some hfind) hkey

end Memo
end Foundation
end Franky
