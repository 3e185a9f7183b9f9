import Fluffycoin.Ossl.Convert
import Fluffycoin.Utils.Decimal

/-!
# The file names of blocks

Model of `src/alg/BlockFilename.cpp`. The width `fmt::format` pads to is a minimum, the one `parse`
insists on is exact, so `get` writes names that `parse` refuses.

* `Spelled str`: eight digits, a dash, four digits, a dash, four digits and the extension.
* **`parse_exact`**: the names that are accepted, as what they are read, and that nothing is written
  to the outputs otherwise.
* `parse_get_iff`: which names of `get` these are.

A C++ `char` is a `Char` here. Outside the digits the sign of a `char` makes no difference: the loop
refuses it on either side.
-/

namespace Fluffycoin.Alg.BlockFilename

/-- The three numbers of a name, the outputs of `parse`. -/
@[ext]
structure Numbers where
  reconciliation : UInt32
  shard : UInt32
  block : UInt32
  deriving DecidableEq, Repr

def extension : List Char := ['.', 'd', 'e', 'r']

/-- `BlockFilename::get`: the format `{:08}-{:04}-{:04}.der`, with braces around each width. -/
def get (reconciliation shard block : UInt32) : List Char :=
  Decimal.padded 8 reconciliation.toNat ++ '-' :: Decimal.padded 4 shard.toNat ++
    '-' :: Decimal.padded 4 block.toNat ++ extension

/-- The common body of `from8` and `from4`: each character's distance from `'0'` times its weight,
added up as `uint32_t`. -/
def evaluate : List Int → List Char → UInt32
  | [], _ => 0
  | weight :: weights, p =>
    UInt32.ofInt (((p.headD '\x00').toNat - '0'.toNat : Int) * weight) + evaluate weights p.tail

def from8 : List Char → UInt32 :=
  evaluate [10000000, 1000000, 100000, 10000, 1000, 100, 10, 1]

def from4 : List Char → UInt32 := evaluate [1000, 100, 10, 1]

/-- `std::string::find`. -/
def find (needle str : List Char) (pos : Nat) : Option Nat :=
  (List.range' pos (str.length + 1 - pos)).find? fun i => needle.isPrefixOf (str.drop i)

/-- The loop over the characters, from position `ui` on. -/
def validChars (ui : Nat) : List Char → Bool
  | [] => true
  | c :: l =>
    if ui = 8 ∨ ui = 13 then
      if c ≠ '-' then false else validChars (ui + 1) l
    else if c < '0' ∨ c > '9' then false
    else validChars (ui + 1) l

/-- `BlockFilename::parse`, with what the outputs held before. -/
def parse (str : List Char) (out : Numbers) : Bool × Numbers :=
  if str.length ≠ 22 then (false, out)
  else if find extension str (str.length - 4) = none then (false, out)
  else if !validChars 0 (str.take (str.length - 4)) then (false, out)
  else (true, ⟨from8 str, from4 (str.drop 9), from4 (str.drop 14)⟩)

/-! ## The shape of a name -/

/-- `str` is made of these parts. -/
structure Parts (str a b c : List Char) : Prop where
  eq : str = a ++ '-' :: b ++ '-' :: c ++ extension
  length_fst : a.length = 8
  length_snd : b.length = 4
  length_thd : c.length = 4

/-- Eight digits, four digits and four digits. -/
def Spelled (str : List Char) : Prop :=
  ∃ a b c, Parts str a b c ∧ ∀ x ∈ a ++ b ++ c, x.isDigit = true

/-- Any text of the right length, cut where the parts of a name end. -/
theorem exists_cut {str : List Char} (h : str.length = 22) :
    ∃ a x b y c e, str = a ++ x :: b ++ y :: c ++ e ∧ a.length = 8 ∧ b.length = 4 ∧
      c.length = 4 ∧ e.length = 4 := by
  have hx : str.drop 8 = str[8] :: str.drop 9 := List.drop_eq_getElem_cons (by omega)
  have hb : (str.drop 9).take 4 ++ str.drop 13 = str.drop 9 := by
    rw [← List.drop_drop (i := 4) (j := 9), List.take_append_drop]
  have hy : str.drop 13 = str[13] :: str.drop 14 := List.drop_eq_getElem_cons (by omega)
  have hc : (str.drop 14).take 4 ++ str.drop 18 = str.drop 14 := by
    rw [← List.drop_drop (i := 4) (j := 14), List.take_append_drop]
  refine ⟨str.take 8, str[8], (str.drop 9).take 4, str[13], (str.drop 14).take 4, str.drop 18,
    ?_, ?_, ?_, ?_, ?_⟩
  · calc str = str.take 8 ++ str.drop 8 := (List.take_append_drop 8 str).symm
      _ = str.take 8 ++ str[8] :: ((str.drop 9).take 4 ++ str.drop 13) := by rw [hx, hb]
      _ = str.take 8 ++ str[8] ::
          ((str.drop 9).take 4 ++ str[13] :: ((str.drop 14).take 4 ++ str.drop 18)) := by
        rw [hy, hc]
      _ = _ := by simp only [List.append_assoc, List.cons_append]
  all_goals simp only [List.length_take, List.length_drop]; omega

theorem validChars_append (ui : Nat) (l l' : List Char) :
    validChars ui (l ++ l') = (validChars ui l && validChars (ui + l.length) l') := by
  induction l generalizing ui with
  | nil => rfl
  | cons c l ih =>
    have hlen : ui + (c :: l).length = ui + 1 + l.length := by
      rw [List.length_cons]
      omega
    simp only [List.cons_append, validChars, ih, hlen]
    split
    · split
      · rfl
      · rfl
    · split
      · rfl
      · rfl

theorem isDigit_iff {c : Char} : c.isDigit = true ↔ ¬ (c < '0' ∨ c > '9') := by
  rw [not_or, Char.not_lt, gt_iff_lt, Char.not_lt, Char.isDigit_iff_toNat, Char.le_def, Char.le_def]
  exact Iff.rfl

/-- Away from the dashes the loop looks for digits. -/
theorem validChars_iff {ui : Nat} {l : List Char}
    (h : ∀ i < l.length, ui + i ≠ 8 ∧ ui + i ≠ 13) :
    validChars ui l = true ↔ ∀ x ∈ l, x.isDigit = true := by
  induction l generalizing ui with
  | nil => exact iff_of_true rfl fun x hx => by cases hx
  | cons c l ih =>
    have hhead : ¬ (ui = 8 ∨ ui = 13) := not_or.mpr (h 0 (Nat.zero_lt_succ _))
    have htail : ∀ i < l.length, ui + 1 + i ≠ 8 ∧ ui + 1 + i ≠ 13 := fun i hi => by
      have := h (i + 1) (Nat.succ_lt_succ hi)
      omega
    rw [validChars, if_neg hhead, List.forall_mem_cons, isDigit_iff, ← ih htail]
    split
    · rename_i hc
      exact iff_of_false Bool.false_ne_true fun hd => hd.1 hc
    · rename_i hc
      exact (and_iff_right hc).symm

theorem validChars_dash {ui : Nat} (h : ui = 8 ∨ ui = 13) (c : Char) (l : List Char) :
    validChars ui (c :: l) = true ↔ c = '-' ∧ validChars (ui + 1) l = true := by
  rw [validChars, if_pos h]
  by_cases hc : c = '-'
  · rw [if_neg (not_not.mpr hc), and_iff_right hc]
  · rw [if_pos hc]
    exact iff_of_false Bool.false_ne_true fun hd => hc hd.1

/-- What the loop accepts of a text that has been cut. -/
theorem validChars_cut {a b c : List Char} {x y : Char} (ha : a.length = 8) (hb : b.length = 4)
    (hc : c.length = 4) :
    validChars 0 (a ++ x :: b ++ y :: c) = true ↔
      x = '-' ∧ y = '-' ∧ ∀ d ∈ a ++ b ++ c, d.isDigit = true := by
  have hassoc : a ++ x :: b ++ y :: c = a ++ x :: (b ++ y :: c) := by
    simp only [List.append_assoc, List.cons_append]
  rw [hassoc, validChars_append, Bool.and_eq_true, ha, validChars_dash (.inl rfl),
    validChars_append, Bool.and_eq_true, hb, validChars_dash (.inr rfl),
    validChars_iff (fun i hi => by omega), validChars_iff (fun i hi => by omega),
    validChars_iff (fun i hi => by omega)]
  simp only [List.forall_mem_append]
  tauto

/-- From the last four characters on, the extension is found only if it is these. -/
theorem find_extension {front e : List Char} (he : e.length = 4) :
    find extension (front ++ e) front.length = none ↔ e ≠ extension := by
  have hext : extension.length = 4 := rfl
  rw [find, List.find?_eq_none]
  constructor
  · rintro h rfl
    refine h front.length (List.mem_range'_1.mpr ⟨Nat.le_refl _, ?_⟩) ?_
    · rw [List.length_append]
      omega
    · rw [List.drop_left]
      decide
  · intro hne i hi hprefix
    have hle := (List.mem_range'_1.mp hi).1
    have hpre : extension <+: (front ++ e).drop i := List.isPrefixOf_iff_prefix.mp hprefix
    have hlen := hpre.length_le
    rw [List.length_drop, List.length_append] at hlen
    obtain rfl : i = front.length := by omega
    rw [List.drop_left] at hpre
    exact hne (hpre.eq_of_length (hext.trans he.symm)).symm

/-! ## Values -/

/-- The weights of `n` digits. -/
def powers : Nat → List Int
  | 0 => []
  | n + 1 => 10 ^ n :: powers n

theorem from8_eq : from8 = evaluate (powers 8) := rfl

theorem from4_eq : from4 = evaluate (powers 4) := rfl

/-- **There is no overflow.** The sum of `uint32_t`s is the value of the digits. -/
theorem toNat_evaluate {l : List Char} (h : ∀ x ∈ l, x.isDigit = true)
    (hlen : 10 ^ l.length ≤ 2 ^ 32) (rest : List Char) :
    (evaluate (powers l.length) (l ++ rest)).toNat = Nat.ofDigitChars 10 l 0 := by
  induction l with
  | nil => rfl
  | cons c l ih =>
    obtain ⟨hc, hl⟩ := List.forall_mem_cons.mp h
    have hle : 10 ^ l.length ≤ 2 ^ 32 :=
      (Nat.pow_le_pow_right (by decide) (Nat.le_succ _)).trans hlen
    have hlt := Decimal.ofDigitChars_lt h
    rw [Decimal.ofDigitChars_cons_zero] at hlt
    have hzero := (Char.isDigit_iff_toNat.mp hc).1
    have hdigit : (UInt32.ofInt ((c.toNat - '0'.toNat : Int) * 10 ^ l.length)).toNat =
        (c.toNat - '0'.toNat) * 10 ^ l.length := by
      have hcast : (c.toNat - '0'.toNat : Int) * 10 ^ l.length =
          (((c.toNat - '0'.toNat) * 10 ^ l.length : Nat) : Int) := by
        rw [Nat.cast_mul, Nat.cast_sub hzero, Nat.cast_pow]
        rfl
      have hbound : (c.toNat - '0'.toNat) * 10 ^ l.length < 2 ^ 32 :=
        (Nat.le_add_right _ _).trans_lt (hlt.trans_le hlen)
      rw [hcast, Ossl.ofInt_natCast32 hbound, UInt32.toNat_ofNat_of_lt' hbound]
    rw [Decimal.ofDigitChars_cons_zero]
    show (UInt32.ofInt ((c.toNat - '0'.toNat : Int) * 10 ^ l.length) +
      evaluate (powers l.length) (l ++ rest)).toNat = _
    rw [UInt32.toNat_add, ih hl hle, hdigit, Nat.mod_eq_of_lt (hlt.trans_le hlen)]

/-! ## What `parse` accepts -/

section Parts

variable {str a b c : List Char}

theorem Parts.drop_snd (h : Parts str a b c) : str.drop 9 = b ++ ('-' :: c ++ extension) := by
  have hassoc : str = (a ++ ['-']) ++ (b ++ ('-' :: c ++ extension)) := by
    rw [h.eq]
    simp only [List.append_assoc, List.cons_append, List.nil_append]
  rw [hassoc]
  exact List.drop_left' (by rw [List.length_append, h.length_fst]; rfl)

theorem Parts.drop_thd (h : Parts str a b c) : str.drop 14 = c ++ extension := by
  have hassoc : str = (a ++ '-' :: b ++ ['-']) ++ (c ++ extension) := by
    rw [h.eq]
    simp only [List.append_assoc, List.cons_append, List.nil_append]
  rw [hassoc]
  refine List.drop_left' ?_
  simp only [List.length_append, List.length_cons, List.length_nil, h.length_fst, h.length_snd]

theorem Parts.take_fst (h : Parts str a b c) : str.take 8 = a := by
  rw [h.eq, List.append_assoc, List.append_assoc]
  exact List.take_left' h.length_fst

/-- The numbers a name of these parts is read as. -/
def numbers (a b c : List Char) : Numbers :=
  ⟨UInt32.ofNat (Nat.ofDigitChars 10 a 0), UInt32.ofNat (Nat.ofDigitChars 10 b 0),
    UInt32.ofNat (Nat.ofDigitChars 10 c 0)⟩

theorem evaluate_eq {l : List Char} {n : Nat} (h : ∀ x ∈ l, x.isDigit = true) (hn : l.length = n)
    (hlen : 10 ^ n ≤ 2 ^ 32) (rest : List Char) :
    evaluate (powers n) (l ++ rest) = UInt32.ofNat (Nat.ofDigitChars 10 l 0) := by
  subst hn
  rw [← toNat_evaluate h hlen rest, UInt32.ofNat_toNat]

/-- Names made of digits are read. -/
theorem parse_of_parts (h : Parts str a b c) (hd : ∀ x ∈ a ++ b ++ c, x.isDigit = true)
    (out : Numbers) : parse str out = (true, numbers a b c) := by
  obtain ⟨hab, hc⟩ := List.forall_mem_append.mp hd
  obtain ⟨ha, hb⟩ := List.forall_mem_append.mp hab
  have hfront : (a ++ '-' :: b ++ '-' :: c).length = 18 := by
    simp only [List.length_append, List.length_cons, h.length_fst, h.length_snd, h.length_thd]
  have hlen : str.length = 22 := by
    rw [h.eq, List.length_append, hfront]
    rfl
  have hpos : str.length - 4 = (a ++ '-' :: b ++ '-' :: c).length := by rw [hlen, hfront]
  have hfind : find extension str (str.length - 4) ≠ none := by
    rw [hpos, h.eq]
    exact fun hnone => (find_extension rfl).mp hnone rfl
  have htake : str.take (str.length - 4) = a ++ '-' :: b ++ '-' :: c := by
    rw [hpos, h.eq, List.take_left]
  have hvalid := (validChars_cut h.length_fst h.length_snd h.length_thd).mpr ⟨rfl, rfl, hd⟩
  have h8 : from8 str = (numbers a b c).reconciliation := by
    rw [from8_eq, h.eq, List.append_assoc, List.append_assoc]
    exact evaluate_eq ha h.length_fst (by decide) _
  have h4 : from4 (str.drop 9) = (numbers a b c).shard := by
    rw [from4_eq, h.drop_snd]
    exact evaluate_eq hb h.length_snd (by decide) _
  have h4' : from4 (str.drop 14) = (numbers a b c).block := by
    rw [from4_eq, h.drop_thd]
    exact evaluate_eq hc h.length_thd (by decide) _
  rw [parse, if_neg (not_not.mpr hlen), if_neg hfind, htake, hvalid, h8, h4, h4']
  rfl

end Parts

/-- **Nothing else is accepted**, and the outputs keep what they held. -/
theorem parse_of_not_spelled {str : List Char} (h : ¬ Spelled str) (out : Numbers) :
    parse str out = (false, out) := by
  by_cases hlen : str.length = 22
  · obtain ⟨a, x, b, y, c, e, rfl, ha, hb, hc, he⟩ := exists_cut hlen
    have hfront : (a ++ x :: b ++ y :: c).length = 18 := by
      simp only [List.length_append, List.length_cons, ha, hb, hc]
    have hpos : (a ++ x :: b ++ y :: c ++ e).length - 4 = (a ++ x :: b ++ y :: c).length := by
      rw [hlen, hfront]
    rw [parse, if_neg (not_not.mpr hlen), hpos, List.take_left]
    by_cases hext : e = extension
    · rw [if_neg fun hnone => (find_extension he).mp hnone hext]
      have hvalid : validChars 0 (a ++ x :: b ++ y :: c) = false := by
        refine Bool.eq_false_iff.mpr fun hv => h ?_
        obtain ⟨rfl, rfl, hd⟩ := (validChars_cut ha hb hc).mp hv
        exact ⟨a, b, c, ⟨by rw [hext], ha, hb, hc⟩, hd⟩
      rw [hvalid]
      rfl
    · rw [if_pos ((find_extension he).mpr hext)]
  · rw [parse, if_pos hlen]

/-! ## Names of numbers -/

namespace Numbers

variable {n : Numbers}

/-- `BlockFilename::get` of the three numbers. -/
def get (n : Numbers) : List Char := BlockFilename.get n.reconciliation n.shard n.block

/-- The numbers have no more digits than the format has places. -/
def InRange (n : Numbers) : Prop :=
  n.reconciliation.toNat < 10 ^ 8 ∧ n.shard.toNat < 10 ^ 4 ∧ n.block.toNat < 10 ^ 4

instance (n : Numbers) : Decidable n.InRange := inferInstanceAs (Decidable (_ ∧ _))

theorem parts_get (h : n.InRange) :
    Parts n.get (Decimal.padded 8 n.reconciliation.toNat) (Decimal.padded 4 n.shard.toNat)
      (Decimal.padded 4 n.block.toNat) where
  eq := rfl
  length_fst := (Decimal.length_padded_eq_iff (by decide)).mpr h.1
  length_snd := (Decimal.length_padded_eq_iff (by decide)).mpr h.2.1
  length_thd := (Decimal.length_padded_eq_iff (by decide)).mpr h.2.2

theorem isDigit_of_mem_parts {x : Char}
    (h : x ∈ Decimal.padded 8 n.reconciliation.toNat ++ Decimal.padded 4 n.shard.toNat ++
      Decimal.padded 4 n.block.toNat) : x.isDigit = true := by
  rcases List.mem_append.mp h with h | h
  · rcases List.mem_append.mp h with h | h
    · exact Decimal.isDigit_of_mem_padded h
    · exact Decimal.isDigit_of_mem_padded h
  · exact Decimal.isDigit_of_mem_padded h

/-- The length of a name tells whether its numbers are in range. -/
theorem inRange_of_length_get (h : n.get.length = 22) : n.InRange := by
  have h8 := Decimal.le_length_padded 8 n.reconciliation.toNat
  have h4 := Decimal.le_length_padded 4 n.shard.toNat
  have h4' := Decimal.le_length_padded 4 n.block.toNat
  simp only [get, BlockFilename.get, extension, List.length_append, List.length_cons,
    List.length_nil] at h
  exact ⟨(Decimal.length_padded_eq_iff (by decide)).mp (by omega),
    (Decimal.length_padded_eq_iff (by decide)).mp (by omega),
    (Decimal.length_padded_eq_iff (by decide)).mp (by omega)⟩

end Numbers

theorem parse_get {n : Numbers} (h : n.InRange) (out : Numbers) :
    parse n.get out = (true, n) := by
  rw [parse_of_parts (Numbers.parts_get h) (fun x hx => Numbers.isDigit_of_mem_parts hx)]
  simp only [numbers, Decimal.ofDigitChars_padded, UInt32.ofNat_toNat]

/-- **When the name of three numbers is read back as these.** -/
theorem parse_get_iff (n out : Numbers) : parse n.get out = (true, n) ↔ n.InRange := by
  refine ⟨fun h => Numbers.inRange_of_length_get ?_, fun h => parse_get h out⟩
  by_contra hlen
  rw [parse, if_pos hlen] at h
  cases h

/-- What an accepted name is read as: the numbers it is the name of, with the values its digits
have. -/
structure ReadAs (str : List Char) (n : Numbers) : Prop where
  inRange : n.InRange
  get : n.get = str
  reconciliation : n.reconciliation.toNat = Nat.ofDigitChars 10 (str.take 8) 0
  shard : n.shard.toNat = Nat.ofDigitChars 10 ((str.drop 9).take 4) 0
  block : n.block.toNat = Nat.ofDigitChars 10 ((str.drop 14).take 4) 0

theorem readAs_numbers {str a b c : List Char} (h : Parts str a b c)
    (hd : ∀ x ∈ a ++ b ++ c, x.isDigit = true) : ReadAs str (numbers a b c) := by
  obtain ⟨hab, hc⟩ := List.forall_mem_append.mp hd
  obtain ⟨ha, hb⟩ := List.forall_mem_append.mp hab
  have hlt := Decimal.ofDigitChars_lt ha
  have hlt' := Decimal.ofDigitChars_lt hb
  have hlt'' := Decimal.ofDigitChars_lt hc
  rw [h.length_fst] at hlt
  rw [h.length_snd] at hlt'
  rw [h.length_thd] at hlt''
  have hvalue : (numbers a b c).reconciliation.toNat = Nat.ofDigitChars 10 a 0 :=
    UInt32.toNat_ofNat_of_lt' (hlt.trans (by decide))
  have hvalue' : (numbers a b c).shard.toNat = Nat.ofDigitChars 10 b 0 :=
    UInt32.toNat_ofNat_of_lt' (hlt'.trans (by decide))
  have hvalue'' : (numbers a b c).block.toNat = Nat.ofDigitChars 10 c 0 :=
    UInt32.toNat_ofNat_of_lt' (hlt''.trans (by decide))
  refine ⟨⟨by rwa [hvalue], by rwa [hvalue'], by rwa [hvalue'']⟩, ?_, ?_, ?_, ?_⟩
  · have hpad := Decimal.padded_ofDigitChars ha (by rintro rfl; cases h.length_fst)
    have hpad' := Decimal.padded_ofDigitChars hb (by rintro rfl; cases h.length_snd)
    have hpad'' := Decimal.padded_ofDigitChars hc (by rintro rfl; cases h.length_thd)
    rw [h.length_fst] at hpad
    rw [h.length_snd] at hpad'
    rw [h.length_thd] at hpad''
    rw [Numbers.get, BlockFilename.get, hvalue, hvalue', hvalue'', hpad, hpad', hpad'', h.eq]
  · rw [hvalue, h.take_fst]
  · rw [hvalue', h.drop_snd, List.take_left' h.length_snd]
  · rw [hvalue'', h.drop_thd, List.take_left' h.length_thd]

/-- **`parse` accepts exactly its grammar**, the names of the numbers in range. It reads a name as
the numbers it was made of, and does not touch its outputs when it fails. -/
theorem parse_exact (str : List Char) (out : Numbers) :
    ((parse str out).1 = true ↔ Spelled str) ∧
      ((parse str out).1 = true ↔ ∃ n : Numbers, n.InRange ∧ str = n.get) ∧
      (∀ n : Numbers, n.InRange → str = n.get → parse str out = (true, n)) ∧
      ((parse str out).1 = true → ReadAs str (parse str out).2) ∧
      ((parse str out).1 = false → (parse str out).2 = out) := by
  by_cases h : Spelled str
  · obtain ⟨a, b, c, hparts, hd⟩ := h
    have hparse := parse_of_parts hparts hd out
    have hread := readAs_numbers hparts hd
    rw [hparse]
    refine ⟨iff_of_true rfl ⟨a, b, c, hparts, hd⟩,
      iff_of_true rfl ⟨_, hread.inRange, hread.get.symm⟩, fun n hn hstr => ?_, fun _ => hread,
      fun hfalse => absurd hfalse.symm Bool.false_ne_true⟩
    rw [← hparse, hstr, parse_get hn]
  · have hparse := parse_of_not_spelled h out
    have hnot : ∀ n : Numbers, n.InRange → str ≠ n.get := by
      rintro n hn rfl
      rw [parse_get hn] at hparse
      cases hparse
    rw [hparse]
    refine ⟨iff_of_false Bool.false_ne_true h, iff_of_false Bool.false_ne_true ?_,
      fun n hn hstr => absurd hstr (hnot n hn), fun htrue => absurd htrue Bool.false_ne_true,
      fun _ => rfl⟩
    rintro ⟨n, hn, hstr⟩
    exact hnot n hn hstr

end Fluffycoin.Alg.BlockFilename
