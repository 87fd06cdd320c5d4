import Mathlib.Data.List.Rotate
import Secbuf.Splice

/-! A window that runs around the end of a list: `count` elements from `start` on, going on at
the front. Reading it takes one segment or two, and so does laying elements behind it. -/

namespace Secbuf.RingWindow
open Splice

variable {α : Type}

def window (buf : List α) (start count : Nat) : List α := (buf.rotate start).take count

/-- `data` laid from `pos` on, in two segments where it runs past the end. -/
def overlay (buf : List α) (pos : Nat) (data : List α) : List α :=
  if data.length ≤ buf.length - pos then splice buf pos data
  else splice (splice buf pos (data.take (buf.length - pos))) 0 (data.drop (buf.length - pos))

@[simp] theorem window_zero (buf : List α) (start : Nat) : window buf start 0 = [] := rfl

theorem length_window (buf : List α) (start count : Nat) (bound : count ≤ buf.length) :
    (window buf start count).length = count := by
  simp only [window, List.length_take, List.length_rotate]
  omega

theorem window_mod (buf : List α) (start count : Nat) :
    window buf (start % buf.length) count = window buf start count := by
  simp only [window, List.rotate_mod]

theorem take_window (buf : List α) (start count n : Nat) :
    (window buf start count).take n = window buf start (min n count) := by
  simp only [window, List.take_take]

theorem drop_window (buf : List α) (start count n : Nat) (bound : count ≤ buf.length) :
    (window buf start count).drop n = window buf (start + n) (count - n) := by
  apply List.ext_getElem?
  intro i
  simp only [window, List.getElem?_drop, List.getElem?_take]
  by_cases inside : n + i < count
  · rw [if_pos inside, if_pos (by omega), List.getElem?_rotate (by omega),
      List.getElem?_rotate (by omega)]
    congr 2
    omega
  · rw [if_neg inside, if_neg (by omega)]

theorem window_segments (buf : List α) (start count : Nat) (start_le : start ≤ buf.length) :
    window buf start count =
      if count ≤ buf.length - start then (buf.drop start).take count
      else buf.drop start ++ (buf.take start).take (count - (buf.length - start)) := by
  rw [window, List.rotate_eq_drop_append_take start_le, List.take_append, List.length_drop]
  split_ifs with short
  · rw [Nat.sub_eq_zero_of_le short, List.take_zero, List.append_nil]
  · rw [List.take_of_length_le (by simp only [List.length_drop]; omega)]

theorem length_overlay (buf : List α) (pos : Nat) (data : List α) (pos_le : pos ≤ buf.length)
    (fits : data.length ≤ buf.length) : (overlay buf pos data).length = buf.length := by
  unfold overlay
  split_ifs with short
  · exact length_splice _ _ _ (by omega)
  · have first : pos + (data.take (buf.length - pos)).length ≤ buf.length := by
      simp only [List.length_take]
      omega
    have kept := length_splice buf pos _ first
    rw [length_splice _ _ _ (by simp only [List.length_drop, kept]; omega), kept]

theorem getElem?_overlay (buf : List α) (pos : Nat) (data : List α) (pos_le : pos ≤ buf.length)
    (fits : data.length ≤ buf.length) (k : Nat) :
    (overlay buf pos data)[k]? =
      if pos ≤ k ∧ k < pos + data.length ∧ k < buf.length then data[k - pos]?
      else if k + buf.length < pos + data.length then data[k + buf.length - pos]?
      else buf[k]? := by
  unfold overlay
  by_cases short : data.length ≤ buf.length - pos
  · rw [if_pos short, getElem?_splice _ _ _ (by omega)]
    by_cases inside : pos ≤ k ∧ k < pos + data.length
    · rw [if_pos inside, if_pos (by omega)]
    · rw [if_neg inside, if_neg (by omega), if_neg (by omega)]
  · have first : pos + (data.take (buf.length - pos)).length ≤ buf.length := by
      simp only [List.length_take]
      omega
    have kept := length_splice buf pos _ first
    rw [if_neg short, getElem?_splice _ _ _ (by simp only [List.length_drop, kept]; omega),
      getElem?_splice _ _ _ first]
    simp only [List.length_drop, List.length_take, List.getElem?_drop, List.getElem?_take]
    by_cases around : k + buf.length < pos + data.length
    · rw [if_pos (by omega), if_pos around]
      by_cases late : pos ≤ k
      · omega
      · rw [if_neg (by omega)]
        congr 1
        omega
    · rw [if_neg (by omega), if_neg around]
      by_cases inside : pos ≤ k ∧ k < pos + data.length ∧ k < buf.length
      · rw [if_pos inside, if_pos (by omega), if_pos (by omega)]
      · rw [if_neg inside, if_neg (by omega)]

theorem mod_of_lt_double {len a : Nat} (bound : a < 2 * len) :
    a % len = if a < len then a else a - len := by
  split_ifs with small
  · exact Nat.mod_eq_of_lt small
  · rw [Nat.mod_eq_sub_mod (by omega), Nat.mod_eq_of_lt (by omega)]

/-- Elements laid right behind the window come out of it last. -/
theorem window_overlay (buf : List α) (start count : Nat) (data : List α)
    (start_lt : start < buf.length) (fits : count + data.length ≤ buf.length) :
    window (overlay buf ((start + count) % buf.length) data) start (count + data.length) =
      window buf start count ++ data := by
  have pos := mod_of_lt_double (show start + count < 2 * buf.length by omega)
  have pos_le : (start + count) % buf.length ≤ buf.length := (Nat.mod_lt _ (by omega)).le
  have kept := length_overlay buf _ data pos_le (by omega)
  apply List.ext_getElem?
  intro i
  have width := length_window buf start count (by omega)
  rw [List.getElem?_append, width, window, window, List.getElem?_take, List.getElem?_take]
  by_cases inside : i < count + data.length
  · have wrapped := mod_of_lt_double (show i + start < 2 * buf.length by omega)
    rw [if_pos inside, List.getElem?_rotate (by omega), kept,
      getElem?_overlay _ _ _ pos_le (by omega), wrapped, pos]
    by_cases old : i < count
    · rw [if_pos old, if_pos old, List.getElem?_rotate (by omega), wrapped]
      rw [if_neg (by split_ifs <;> omega), if_neg (by split_ifs <;> omega)]
    · rw [if_neg old]
      by_cases low : i + start < buf.length
      · have near : start + count < buf.length := by omega
        rw [if_pos low, if_pos near, if_pos (by omega)]
        congr 1
        omega
      · rw [if_neg low]
        by_cases near : start + count < buf.length
        · rw [if_pos near, if_neg (by omega), if_pos (by omega)]
          congr 1
          omega
        · rw [if_neg near, if_pos (by omega)]
          congr 1
          omega
  · rw [if_neg inside, if_neg (by omega), List.getElem?_eq_none (by omega)]

/-- Two offsets of one revolution are two different places. -/
theorem place_ne {len start near far : Nat} (start_lt : start < len) (order : near < far)
    (far_lt : far < len) : (start + near) % len ≠ (start + far) % len := by
  rw [mod_of_lt_double (show start + near < 2 * len by omega),
    mod_of_lt_double (show start + far < 2 * len by omega)]
  split_ifs <;> omega

theorem window_splice (buf : List α) (start count pos : Nat) (src : List α)
    (bound : count ≤ buf.length) (fits : pos + src.length ≤ buf.length)
    (beside : ∀ k < count, ¬ (pos ≤ (start + k) % buf.length ∧
      (start + k) % buf.length < pos + src.length)) :
    window (splice buf pos src) start count = window buf start count := by
  have kept := length_splice buf pos src fits
  apply List.ext_getElem?
  intro i
  simp only [window, List.getElem?_take]
  by_cases inside : i < count
  · have place := beside i inside
    rw [Nat.add_comm start i] at place
    rw [if_pos inside, if_pos inside, List.getElem?_rotate (by omega),
      List.getElem?_rotate (by omega), kept, getElem?_splice _ _ _ fits, if_neg place]
  · rw [if_neg inside, if_neg inside]

end Secbuf.RingWindow
