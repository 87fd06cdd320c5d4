import Mathlib.Data.List.Basic
import Mathlib.Tactic.SplitIfs

/-! Overwriting a segment of a list in place. -/

namespace Secbuf.Splice

variable {α : Type}

/-- `src` laid over `l` from index `start` on. -/
def splice (l : List α) (start : Nat) (src : List α) : List α :=
  l.take start ++ src ++ l.drop (start + src.length)

theorem length_splice (l : List α) (start : Nat) (src : List α)
    (fits : start + src.length ≤ l.length) : (splice l start src).length = l.length := by
  simp only [splice, List.length_append, List.length_take, List.length_drop]
  omega

@[simp] theorem splice_nil (l : List α) (start : Nat) : splice l start [] = l := by
  simp [splice]

theorem getElem?_splice (l : List α) (start : Nat) (src : List α)
    (fits : start + src.length ≤ l.length) (i : Nat) :
    (splice l start src)[i]? =
      if start ≤ i ∧ i < start + src.length then src[i - start]? else l[i]? := by
  have head : (l.take start).length = start := by simp only [List.length_take]; omega
  simp only [splice, List.append_assoc, List.getElem?_append, head, List.getElem?_take,
    List.getElem?_drop]
  split_ifs with before during inside inside
  · omega
  · rfl
  · rfl
  · omega
  · omega
  · congr 1
    omega

theorem splice_append_left (l r : List α) (start : Nat) (src : List α)
    (fits : start + src.length ≤ l.length) :
    splice (l ++ r) start src = splice l start src ++ r := by
  simp only [splice, List.append_assoc]
  rw [List.take_append_of_le_length (by omega), List.drop_append_of_le_length fits]

theorem splice_splice (l : List α) (start : Nat) (first second : List α)
    (fits : start + first.length + second.length ≤ l.length) :
    splice (splice l start first) (start + first.length) second =
      splice l start (first ++ second) := by
  apply List.ext_getElem?
  intro i
  have whole : start + (first ++ second).length ≤ l.length := by
    simp only [List.length_append]
    omega
  have inner : (splice l start first).length = l.length := length_splice _ _ _ (by omega)
  rw [getElem?_splice _ _ _ (by omega), getElem?_splice _ _ _ (by omega),
    getElem?_splice _ _ _ whole]
  simp only [List.length_append, List.getElem?_append]
  split_ifs <;> first | rfl | omega | (congr 1; omega)

theorem read_splice (l : List α) (start : Nat) (src : List α)
    (fits : start + src.length ≤ l.length) :
    ((splice l start src).drop start).take src.length = src := by
  apply List.ext_getElem?
  intro i
  rw [List.getElem?_take, List.getElem?_drop, getElem?_splice l start src fits]
  split_ifs with inside
  · rw [Nat.add_sub_cancel_left]
  · omega
  · exact (List.getElem?_eq_none (by omega)).symm

theorem getElem?_splice_cases (l : List α) (start : Nat) (src : List α)
    (fits : start + src.length ≤ l.length) (i : Nat) (value : α)
    (found : (splice l start src)[i]? = some value) :
    (∃ j, i = start + j ∧ src[j]? = some value) ∨ l[i]? = some value := by
  rw [getElem?_splice l start src fits] at found
  split_ifs at found with inside
  · exact Or.inl ⟨i - start, by omega, found⟩
  · exact Or.inr found

end Secbuf.Splice
