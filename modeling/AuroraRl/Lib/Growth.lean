import Mathlib.Data.List.Chain
import Mathlib.Data.List.Basic

/-!
# Growing texts

A text is built in layers: each is a prefix of the next, and every layer has a label for what it adds.

* `labels` : the labels of the positions of the last layer;
* `length_labels` : there is one for each position;
* `getElem?_labels` : a position has the label of the first layer that covers it.
-/

namespace Growth

variable {α β : Type}

/-- The labels of the positions after the first `n`. -/
def labels : Nat → List (List α × β) → List β
  | _, [] => []
  | n, (text, b) :: layers => List.replicate (text.length - n) b ++ labels text.length layers

/-- A layer is at least as long as what comes before it. -/
def Nondecreasing (n : Nat) (layers : List (List α × β)) : Prop := (n :: layers.map (·.1.length)).IsChain (· ≤ ·)

theorem nondecreasing_cons {n : Nat} {text : List α} {b : β} {layers : List (List α × β)} :
    Nondecreasing n ((text, b) :: layers) ↔ n ≤ text.length ∧ Nondecreasing text.length layers := by
  unfold Nondecreasing
  rw [List.map_cons, List.isChain_cons_cons]

theorem nondecreasing_of_prefix {text : List α} {layers : List (List α × β)}
    (h : (text :: layers.map Prod.fst).IsChain (· <+: ·)) : Nondecreasing text.length layers := by
  have hlen := List.isChain_map_of_isChain (S := (· ≤ ·)) List.length (fun _ _ h => h.length_le) h
  rwa [List.map_cons, List.map_map] at hlen

theorem nondecreasing_zero {layers : List (List α × β)} (h : (layers.map Prod.fst).IsChain (· <+: ·)) :
    Nondecreasing 0 layers := by
  cases layers with
  | nil => simp [Nondecreasing]
  | cons layer layers => exact nondecreasing_cons.2 ⟨Nat.zero_le _, nondecreasing_of_prefix h⟩

theorem length_labels {n : Nat} {layers : List (List α × β)} (h : Nondecreasing n layers) :
    n + (labels n layers).length = ((layers.map (·.1.length)).getLast?).getD n := by
  induction layers generalizing n with
  | nil => simp [labels]
  | cons layer layers ih =>
      obtain ⟨text, b⟩ := layer
      obtain ⟨hn, hrest⟩ := nondecreasing_cons.1 h
      have hlast := ih hrest
      rw [labels, List.length_append, List.length_replicate, List.map_cons, List.getLast?_cons, Option.getD_some, ← hlast]
      omega

theorem getElem?_labels {n : Nat} {layers : List (List α × β)} (h : Nondecreasing n layers) (i : Nat) :
    (labels n layers)[i]? = (layers.find? fun layer => n + i < layer.1.length).map Prod.snd := by
  induction layers generalizing n i with
  | nil => simp [labels]
  | cons layer layers ih =>
      obtain ⟨text, b⟩ := layer
      obtain ⟨hn, hrest⟩ := nondecreasing_cons.1 h
      by_cases hi : n + i < text.length
      · have hlen : i < (List.replicate (text.length - n) b).length := by
          rw [List.length_replicate]
          omega
        rw [labels, List.getElem?_append_left hlen, List.find?_cons_of_pos (by simpa using hi)]
        simp [List.getElem?_replicate]
        omega
      · have hlen : (List.replicate (text.length - n) b).length ≤ i := by
          rw [List.length_replicate]
          omega
        have hshift : text.length + (i - (text.length - n)) = n + i := by omega
        rw [labels, List.getElem?_append_right hlen, List.length_replicate, ih hrest, hshift,
          List.find?_cons_of_neg (by simpa using hi)]

end Growth
