import Mathlib.Data.Nat.Digits.Lemmas
import Mathlib.Tactic.Linarith

/-!
# Numbers as octets

The octet strings DER writes numbers as:

* `natOctets n`, the big-endian base-256 numeral of `n` without leading zeros, and its value
  `octetsNat`;
* `intOctets z`, the shortest big-endian two's complement form of `z`, and the reader `octetsInt?`,
  which refuses the empty string and every longer form;
* `lengthOctets n`, the definite length octets: one octet below 128, otherwise `0x80 + k` and the
  `k` octets of `n`. DER stops at `k = 126`. So that the encoding is defined for every `n`, a longer
  numeral is announced by the reserved `0xFF` and its number of octets in unary.

Each reader undoes its writer (`octetsNat_natOctets`, `octetsInt?_intOctets`,
`readLength_lengthOctets`).
-/

namespace Der

/-- An octet string. -/
abbrev Octets := List UInt8

/-! ## Naturals -/

/-- The value of a big-endian base-256 numeral. -/
def octetsNat (l : Octets) : Nat := Nat.ofDigits 256 (l.reverse.map UInt8.toNat)

/-- The shortest big-endian base-256 numeral; zero has no octets. -/
def natOctets (n : Nat) : Octets := ((Nat.digits 256 n).map UInt8.ofNat).reverse

theorem octetsNat_natOctets (n : Nat) : octetsNat (natOctets n) = n := by
  unfold octetsNat natOctets
  rw [List.reverse_reverse, List.map_map]
  have hid : (Nat.digits 256 n).map (UInt8.toNat ∘ UInt8.ofNat) = Nat.digits 256 n := by
    conv_rhs => rw [← List.map_id (Nat.digits 256 n)]
    refine List.map_congr_left fun d hd => ?_
    have hlt : d < 256 := Nat.digits_lt_base (by omega) hd
    exact UInt8.toNat_ofNat_of_lt' hlt
  rw [hid]
  exact Nat.ofDigits_digits 256 n

theorem octetsNat_zero_cons (l : Octets) : octetsNat (0 :: l) = octetsNat l := by
  unfold octetsNat
  rw [List.reverse_cons, List.map_append, Nat.ofDigits_append]
  simp

theorem octetsNat_replicate_append (n : Nat) (l : Octets) :
    octetsNat (List.replicate n 0 ++ l) = octetsNat l := by
  induction n with
  | zero => rfl
  | succ n ih =>
    rw [List.replicate_succ, List.cons_append, octetsNat_zero_cons]
    exact ih

/-- A numeral without leading zeros is the one of its value. -/
theorem natOctets_octetsNat {l : Octets} (h : ∀ b ∈ l.head?, b ≠ 0) :
    natOctets (octetsNat l) = l := by
  unfold natOctets octetsNat
  have hdigits : Nat.digits 256 (Nat.ofDigits 256 (l.reverse.map UInt8.toNat)) =
      l.reverse.map UInt8.toNat := by
    refine Nat.digits_ofDigits 256 (by omega) _ (fun d hd => ?_) (fun hne => ?_)
    · obtain ⟨b, _, rfl⟩ := List.mem_map.mp hd
      exact b.toNat_lt
    · cases l with
      | nil => exact absurd rfl hne
      | cons b l =>
        simp only [List.reverse_cons, List.map_append, List.map_cons, List.map_nil,
          List.getLast_append_singleton]
        have hb : b ≠ 0 := h b rfl
        intro h0
        exact hb (UInt8.toNat_inj.mp h0)
  rw [hdigits, List.map_map, List.map_reverse, List.reverse_reverse]
  conv_rhs => rw [← List.map_id l]
  exact List.map_congr_left fun b _ => UInt8.ofNat_toNat

theorem natOctets_head_ne_zero (n : Nat) : ∀ b ∈ (natOctets n).head?, b ≠ 0 := by
  intro b hb
  unfold natOctets at hb
  rw [List.head?_reverse, List.getLast?_map] at hb
  obtain ⟨d, hd, rfl⟩ := Option.map_eq_some_iff.mp hb
  by_cases hn : n = 0
  · rw [hn, Nat.digits_zero] at hd
    cases hd
  · have hne : Nat.digits 256 n ≠ [] := Nat.digits_ne_nil_iff_ne_zero.mpr hn
    rw [List.getLast?_eq_some_getLast hne] at hd
    obtain rfl := Option.some.inj hd
    have hlt : (Nat.digits 256 n).getLast hne < 256 :=
      Nat.digits_lt_base (by omega) (List.getLast_mem hne)
    intro h0
    have := congrArg UInt8.toNat h0
    rw [UInt8.toNat_ofNat_of_lt' hlt] at this
    exact Nat.getLast_digit_ne_zero 256 hn this

/-! ## Integers -/

/-- A numeral of `n` with the top bit clear: `natOctets` with a zero in front where needed. -/
def clearOctets (n : Nat) : Octets :=
  match natOctets n with
  | [] => [0]
  | b :: l => if b < 128 then b :: l else 0 :: b :: l

/-- The two's complement octets of an integer: for a negative one those of `-z - 1`, inverted. -/
def intOctets (z : Int) : Octets :=
  if 0 ≤ z then clearOctets z.toNat else (clearOctets (-z - 1).toNat).map (255 - ·)

/-- The integer a nonempty octet string denotes. -/
def octetsInt (l : Octets) : Int :=
  match l with
  | [] => 0
  | b :: _ => if b < 128 then octetsNat l else -(octetsNat (l.map (255 - ·)) : Int) - 1

/-- Read an integer, in its shortest form only. -/
def octetsInt? (l : Octets) : Option Int :=
  if intOctets (octetsInt l) = l then some (octetsInt l) else none

theorem octetsNat_clearOctets (n : Nat) : octetsNat (clearOctets n) = n := by
  have h := octetsNat_natOctets n
  unfold clearOctets
  cases hl : natOctets n with
  | nil =>
    rw [hl] at h
    rw [octetsNat_zero_cons]
    exact h
  | cons b l =>
    rw [hl] at h
    simp only
    split
    · exact h
    · rw [octetsNat_zero_cons]
      exact h

theorem clearOctets_head (n : Nat) : ∃ b l, clearOctets n = b :: l ∧ b < 128 := by
  unfold clearOctets
  cases natOctets n with
  | nil => exact ⟨0, [], rfl, by decide⟩
  | cons b l =>
    simp only
    split
    · rename_i hb
      exact ⟨b, l, rfl, hb⟩
    · exact ⟨0, b :: l, rfl, by decide⟩

theorem sub_sub_255 (b : UInt8) : 255 - (255 - b) = b := by
  apply UInt8.toNat_inj.mp
  have hb := b.toNat_lt
  have h1 : (255 - b).toNat = 255 - b.toNat :=
    UInt8.toNat_sub_of_le 255 b (UInt8.le_iff_toNat_le.mpr (by simp; omega))
  rw [UInt8.toNat_sub_of_le 255 (255 - b) (UInt8.le_iff_toNat_le.mpr (by rw [h1]; simp)), h1]
  simp
  omega

theorem map_sub_map_sub (l : Octets) : (l.map (255 - ·)).map (255 - ·) = l := by
  rw [List.map_map]
  conv_rhs => rw [← List.map_id l]
  exact List.map_congr_left fun b _ => sub_sub_255 b

theorem octetsInt_intOctets (z : Int) : octetsInt (intOctets z) = z := by
  unfold intOctets
  split
  · rename_i hz
    obtain ⟨b, l, he, hb⟩ := clearOctets_head z.toNat
    have h := octetsNat_clearOctets z.toNat
    rw [he] at h ⊢
    simp only [octetsInt, if_pos hb]
    rw [h]
    omega
  · rename_i hz
    obtain ⟨b, l, he, hb⟩ := clearOctets_head (-z - 1).toNat
    have h := octetsNat_clearOctets (-z - 1).toNat
    rw [he] at h ⊢
    have hb' : ¬ (255 - b < 128) := by
      have hlt := UInt8.lt_iff_toNat_lt.mp hb
      have h1 : (255 - b).toNat = 255 - b.toNat :=
        UInt8.toNat_sub_of_le 255 b (UInt8.le_iff_toNat_le.mpr (by simp at hlt ⊢; omega))
      intro hc
      have := UInt8.lt_iff_toNat_lt.mp hc
      rw [h1] at this
      simp at hlt this
      omega
    have hmap : ((b :: l).map (255 - ·)).map (255 - ·) = b :: l := map_sub_map_sub _
    simp only [List.map_cons] at hmap ⊢
    simp only [octetsInt, if_neg hb', List.map_cons, hmap]
    rw [h]
    omega

/-- **Integers round-trip**, and only their shortest form is read. -/
theorem octetsInt?_intOctets (z : Int) : octetsInt? (intOctets z) = some z := by
  unfold octetsInt?
  rw [octetsInt_intOctets, if_pos rfl]

/-! ## Lengths -/

/-- The length octets. -/
def lengthOctets (n : Nat) : Octets :=
  if n < 128 then [UInt8.ofNat n]
  else
    let ds := natOctets n
    if ds.length < 127 then UInt8.ofNat (128 + ds.length) :: ds
    else 255 :: (List.replicate ds.length 1 ++ 0 :: ds)

/-- Split off length octets of any form: the length and what follows. -/
def splitLength : Octets → Option (Nat × Octets)
  | [] => none
  | b :: l =>
    if b < 128 then some (b.toNat, l)
    else if b < 255 then some (octetsNat (l.take (b.toNat - 128)), l.drop (b.toNat - 128))
    else
      let k := (l.takeWhile (· = 1)).length
      let l' := l.drop (k + 1)
      some (octetsNat (l'.take k), l'.drop k)

/-- Read length octets from the front, in their shortest form only. -/
def readLength (l : Octets) : Option (Nat × Octets) :=
  (splitLength l).filter fun p => lengthOctets p.1 ++ p.2 = l

theorem takeWhile_ones (k : Nat) (l : Octets) :
    (List.replicate k 1 ++ 0 :: l).takeWhile (· = 1) = List.replicate k 1 := by
  rw [List.takeWhile_append_of_pos (by simp), List.takeWhile_cons_of_neg (by simp)]
  simp

theorem splitLength_lengthOctets (n : Nat) (rest : Octets) :
    splitLength (lengthOctets n ++ rest) = some (n, rest) := by
  unfold lengthOctets
  split
  · rename_i hn
    have hb : (UInt8.ofNat n).toNat = n := UInt8.toNat_ofNat_of_lt' (by show n < 256; omega)
    have hlt : UInt8.ofNat n < 128 := UInt8.lt_iff_toNat_lt.mpr (by rw [hb]; exact hn)
    simp only [List.cons_append, List.nil_append, splitLength, if_pos hlt, hb]
  · have hv := octetsNat_natOctets n
    simp only
    split
    · rename_i hk
      have hb : (UInt8.ofNat (128 + (natOctets n).length)).toNat = 128 + (natOctets n).length :=
        UInt8.toNat_ofNat_of_lt' (by show _ < 256; omega)
      have h1 : ¬ UInt8.ofNat (128 + (natOctets n).length) < 128 := fun h => by
        have := UInt8.lt_iff_toNat_lt.mp h
        rw [hb] at this
        simp at this
      have h2 : UInt8.ofNat (128 + (natOctets n).length) < 255 :=
        UInt8.lt_iff_toNat_lt.mpr (by rw [hb]; simp; omega)
      simp only [List.cons_append, splitLength, if_neg h1, if_pos h2, hb,
        Nat.add_sub_cancel_left, List.take_left, List.drop_left, hv]
    · have h1 : ¬ ((255 : UInt8) < 128) := by decide
      have h2 : ¬ ((255 : UInt8) < 255) := by decide
      have htw : ((List.replicate (natOctets n).length 1 ++ 0 :: natOctets n) ++ rest).takeWhile
          (· = 1) = List.replicate (natOctets n).length 1 := by
        rw [List.append_assoc, List.cons_append]
        exact takeWhile_ones _ _
      have hdrop : ((List.replicate (natOctets n).length 1 ++ 0 :: natOctets n) ++ rest).drop
          ((natOctets n).length + 1) = natOctets n ++ rest := by
        rw [List.append_assoc, List.cons_append, List.drop_append, List.length_replicate]
        simp
      simp only [List.cons_append, splitLength, if_neg h1, if_neg h2, htw, List.length_replicate,
        hdrop, List.take_left, List.drop_left, hv]

theorem readLength_lengthOctets (n : Nat) (rest : Octets) :
    readLength (lengthOctets n ++ rest) = some (n, rest) := by
  unfold readLength
  rw [splitLength_lengthOctets, Option.filter_some, if_pos (by simp)]

end Der
