import Mathlib.Data.List.Basic

/-!
# Streams of self-delimiting messages

A message that says at its start how long it is can be cut off a stream without knowing what comes
after it. `split` cuts a stream into its messages, and fails when a message says that it is empty or
longer than what is left. A concatenation of messages that each say their own length is split into
these messages again (`split_flatten`).

A stream that is still arriving has whole messages at its start, and then perhaps the beginning of
one. A reader that takes a whole message whenever one is there takes the messages of all that has
arrived, however it arrives (`wholes_flatten_append`).

Records of one size need not say it: each is found at a multiple of the size
(`drop_flatMap_records`).
-/

namespace Frames

variable {α : Type}

/-- Cuts at most `fuel` messages off a stream, each as long as `size` reads at its start. -/
def splitFuel (size : List α → ℕ) : ℕ → List α → Option (List (List α))
  | _, [] => some []
  | 0, _ :: _ => none
  | fuel + 1, a :: l =>
    let n := size (a :: l)
    -- A message is not empty, and is there up to its end.
    if n = 0 ∨ (a :: l).length < n then none
    else (splitFuel size fuel ((a :: l).drop n)).map ((a :: l).take n :: ·)

/-- The messages of a stream that consists of whole messages. -/
def split (size : List α → ℕ) (l : List α) : Option (List (List α)) := splitFuel size l.length l

/-- The message says its own length, whatever comes after it. -/
def SaysLength (size : List α → ℕ) (b : List α) : Prop :=
  b ≠ [] ∧ ∀ rest, size (b ++ rest) = b.length

variable {size : List α → ℕ}

/-- A message is cut off the stream that it starts. -/
theorem splitFuel_append {b : List α} (hb : SaysLength size b) (fuel : ℕ) (rest : List α) :
    splitFuel size (fuel + 1) (b ++ rest) = (splitFuel size fuel rest).map (b :: ·) := by
  obtain ⟨hne, hsize⟩ := hb
  obtain ⟨a, l, rfl⟩ := List.exists_cons_of_ne_nil hne
  have hsize' : size (a :: (l ++ rest)) = (a :: l).length := hsize rest
  have hfits : ¬((a :: l).length = 0 ∨ (a :: (l ++ rest)).length < (a :: l).length) := by
    simp
  rw [List.cons_append, splitFuel, hsize', if_neg hfits, ← List.cons_append, List.drop_left,
    List.take_left]

/-- The messages are got back from their concatenation. -/
theorem split_flatten {bs : List (List α)} (h : ∀ b ∈ bs, SaysLength size b) :
    split size bs.flatten = some bs := by
  -- Every message takes at least one unit of the fuel, which is the length of the stream.
  suffices ∀ fuel, bs.length ≤ fuel → splitFuel size fuel bs.flatten = some bs by
    refine this _ ?_
    clear this
    induction bs with
    | nil => simp
    | cons b bs ih =>
      have hb := List.length_pos_iff.mpr (h b List.mem_cons_self).1
      have ih := ih fun b' hb' => h b' (List.mem_cons_of_mem b hb')
      rw [List.flatten_cons, List.length_append, List.length_cons]
      omega
  induction bs with
  | nil =>
    intro fuel _
    rw [List.flatten_nil, splitFuel]
  | cons b bs ih =>
    obtain ⟨hb, hbs⟩ := List.forall_mem_cons.mp h
    intro fuel hfuel
    rw [List.length_cons] at hfuel
    obtain ⟨fuel, rfl⟩ : ∃ n, fuel = n + 1 := ⟨fuel - 1, by omega⟩
    rw [List.flatten_cons, splitFuel_append hb, ih hbs fuel (by omega)]
    rfl

/-! ## Streams that are still arriving -/

/-- Cuts at most `fuel` messages off a stream, as long as one is there up to its end. -/
def wholesFuel (size : List α → ℕ) : ℕ → List α → List (List α)
  | 0, _ => []
  | fuel + 1, l =>
    if 0 < size l ∧ size l ≤ l.length then l.take (size l) :: wholesFuel size fuel (l.drop (size l))
    else []

/-- The whole messages that a stream starts with. -/
def wholes (size : List α → ℕ) (l : List α) : List (List α) := wholesFuel size l.length l

/-- More fuel than there are elements cuts off no more messages. -/
theorem wholesFuel_eq {fuel : ℕ} {l : List α} (h : l.length ≤ fuel) :
    wholesFuel size fuel l = wholes size l := by
  unfold wholes
  -- Both have enough fuel for the stream that is left after a message.
  suffices ∀ n m (l : List α), l.length ≤ n → l.length ≤ m →
      wholesFuel size n l = wholesFuel size m l from this _ _ l h (Nat.le_refl _)
  intro n
  induction n with
  | zero =>
    intro m l hn hm
    obtain rfl := List.length_eq_zero_iff.mp (Nat.le_zero.mp hn)
    cases m with
    | zero => rfl
    | succ m => rw [wholesFuel, wholesFuel, if_neg (by simp; omega)]
  | succ n ih =>
    intro m l hn hm
    cases m with
    | zero =>
      obtain rfl := List.length_eq_zero_iff.mp (Nat.le_zero.mp hm)
      rw [wholesFuel, wholesFuel, if_neg (by simp; omega)]
    | succ m =>
      rw [wholesFuel, wholesFuel]
      split_ifs with hsize
      · have hdrop : (l.drop (size l)).length < l.length := by
          rw [List.length_drop]
          omega
        rw [ih m _ (by omega) (by omega)]
      · rfl

/-- A stream that does not start with a whole message has none. -/
theorem wholes_eq_nil {l : List α} (h : l.length < size l) : wholes size l = [] := by
  unfold wholes
  cases l with
  | nil => rfl
  | cons a l => rw [List.length_cons, wholesFuel, if_neg fun hsize => Nat.not_lt.mpr hsize.2 h]

/-- The first message of a stream is cut off. -/
theorem wholes_of_le {l : List α} (hpos : 0 < size l) (hle : size l ≤ l.length) :
    wholes size l = l.take (size l) :: wholes size (l.drop (size l)) := by
  cases l with
  | nil => exact absurd (Nat.lt_of_lt_of_le hpos hle) (Nat.lt_irrefl 0)
  | cons a l =>
    have hdrop : ((a :: l).drop (size (a :: l))).length ≤ l.length := by
      rw [List.length_drop, List.length_cons]
      omega
    rw [wholes, List.length_cons, wholesFuel, if_pos ⟨hpos, hle⟩, wholesFuel_eq hdrop]

/-- A message is cut off the stream that it starts. -/
theorem wholes_append {b : List α} (hb : SaysLength size b) (rest : List α) :
    wholes size (b ++ rest) = b :: wholes size rest := by
  obtain ⟨hne, hsize⟩ := hb
  have hpos := List.length_pos_iff.mpr hne
  rw [wholes_of_le (by rw [hsize]; exact hpos) (by rw [hsize, List.length_append]; omega), hsize,
    List.take_left, List.drop_left]

/-- Whatever comes after messages, they are the first ones of the stream. -/
theorem wholes_flatten_append {bs : List (List α)} (h : ∀ b ∈ bs, SaysLength size b)
    (rest : List α) : wholes size (bs.flatten ++ rest) = bs ++ wholes size rest := by
  induction bs with
  | nil => rfl
  | cons b bs ih =>
    obtain ⟨hb, hbs⟩ := List.forall_mem_cons.mp h
    rw [List.flatten_cons, List.append_assoc, wholes_append hb, ih hbs]
    rfl

/-- The whole messages are the start of the stream, and what comes after them does not start with
another one. -/
theorem wholes_flatten (hpos : ∀ l, 0 < size l) (l : List α) :
    ∃ left, (wholes size l).flatten ++ left = l ∧ left.length < size left := by
  -- The stream that is left after a message is shorter.
  induction hn : l.length using Nat.strongRecOn generalizing l with
  | ind n ih =>
    by_cases hle : size l ≤ l.length
    · have hsize := hpos l
      have hdrop : (l.drop (size l)).length < n := by
        rw [List.length_drop]
        omega
      obtain ⟨left, hleft, hshort⟩ := ih _ hdrop (l.drop (size l)) rfl
      refine ⟨left, ?_, hshort⟩
      rw [wholes_of_le hsize hle, List.flatten_cons, List.append_assoc, hleft,
        List.take_append_drop]
    · have hlt := Nat.lt_of_not_le hle
      exact ⟨l, by rw [wholes_eq_nil hlt]; rfl, hlt⟩

/-! ## Records of one size -/

section Records

variable {β : Type} {encode : β → List α} {width : ℕ} (hwidth : ∀ x, (encode x).length = width)

include hwidth

/-- The length of a list of records. -/
theorem length_flatMap_records (l : List β) : (l.flatMap encode).length = width * l.length := by
  induction l with
  | nil => rfl
  | cons x l ih =>
    rw [List.flatMap_cons, List.length_append, ih, hwidth, List.length_cons, Nat.mul_succ,
      Nat.add_comm]

/-- A list of records from one of them on. -/
theorem drop_flatMap_records (l : List β) (k : ℕ) :
    (l.flatMap encode).drop (width * k) = (l.drop k).flatMap encode := by
  induction k generalizing l with
  | zero => rfl
  | succ k ih =>
    cases l with
    | nil => simp
    | cons x l =>
      have hfirst : width * (k + 1) = (encode x).length + width * k := by
        rw [hwidth, Nat.mul_succ, Nat.add_comm]
      rw [List.flatMap_cons, hfirst, List.drop_length_add_append, List.drop_succ_cons, ih]

end Records

end Frames
