import Mathlib

/-! Rounding to double precision.

A number is rounded to the nearest multiple of the unit in its last place, ties to even.
The unit grows with the number; rounding is monotone all the same, though not strictly.
Integers up to `2 ^ 53` are kept. -/
namespace Zeroship.Base

/-- The nearest integer, the even one of two. -/
def halfEven (x : ℚ) : ℤ :=
  if 2 * Int.fract x < 1 then ⌊x⌋
  else if 1 < 2 * Int.fract x then ⌊x⌋ + 1
  else if Even ⌊x⌋ then ⌊x⌋ else ⌊x⌋ + 1

section
variable {x y : ℚ}

theorem floor_le_halfEven (x : ℚ) : ⌊x⌋ ≤ halfEven x := by
  unfold halfEven
  split_ifs <;> omega

theorem halfEven_le_floor (x : ℚ) : halfEven x ≤ ⌊x⌋ + 1 := by
  unfold halfEven
  split_ifs <;> omega

theorem halfEven_mono (h : x ≤ y) : halfEven x ≤ halfEven y := by
  rcases (Int.floor_le_floor h).lt_or_eq with hlt | heq
  · calc halfEven x ≤ ⌊x⌋ + 1 := halfEven_le_floor x
      _ ≤ ⌊y⌋ := hlt
      _ ≤ halfEven y := floor_le_halfEven y
  -- the same floor: the larger fraction is rounded no lower
  have hf : Int.fract x ≤ Int.fract y := by
    rw [← Int.self_sub_floor, ← Int.self_sub_floor, heq]
    linarith
  unfold halfEven
  rw [heq]
  split_ifs <;> first | omega | linarith

theorem halfEven_intCast (n : ℤ) : halfEven (n : ℚ) = n := by simp [halfEven]

end

/-! ### Rounding -/

/-- The exponent of the unit in the last place. -/
def ulpExponent (x : ℚ) : ℤ := max (Int.log 2 x - 52) (-1074)

/-- A nonnegative number, rounded. -/
def roundMagnitude (x : ℚ) : ℚ := halfEven (x / 2 ^ ulpExponent x) * 2 ^ ulpExponent x

def roundDouble (x : ℚ) : ℚ := if 0 ≤ x then roundMagnitude x else -roundMagnitude (-x)

section
variable {x y : ℚ}

theorem ulpExponent_mono (hx : 0 < x) (h : x ≤ y) : ulpExponent x ≤ ulpExponent y :=
  max_le_max (by have := Int.log_mono_right (b := 2) hx h; omega) le_rfl

theorem round_nonneg (hx : 0 ≤ x) : 0 ≤ roundMagnitude x := by
  have hf : (0 : ℤ) ≤ halfEven (x / 2 ^ ulpExponent x) :=
    (Int.floor_nonneg.mpr (by positivity)).trans (floor_le_halfEven _)
  unfold roundMagnitude
  positivity

theorem roundMagnitude_le (x : ℚ) : roundMagnitude x ≤ 2 ^ (ulpExponent x + 53) := by
  have hl : Int.log 2 x + 1 ≤ ulpExponent x + 53 := by
    unfold ulpExponent
    omega
  have hlt : x < 2 ^ (ulpExponent x + 53) := (Int.lt_zpow_succ_log_self (by norm_num) x).trans_le
    (zpow_le_zpow_right₀ (by norm_num) hl)
  rw [zpow_add₀ (by norm_num), mul_comm] at hlt ⊢
  have hf : ⌊x / 2 ^ ulpExponent x⌋ < 2 ^ 53 := by
    rw [Int.floor_lt, div_lt_iff₀ (by positivity)]
    exact_mod_cast hlt
  have hr : (halfEven (x / 2 ^ ulpExponent x) : ℚ) ≤ 2 ^ (53 : ℤ) := by
    exact_mod_cast (halfEven_le_floor _).trans hf
  unfold roundMagnitude
  gcongr

/-- A number whose unit is not the smallest is at least `2 ^ 52` of them. -/
theorem le_roundMagnitude (hx : 0 < x) (he : -1074 < ulpExponent x) : 2 ^ (ulpExponent x + 52) ≤ roundMagnitude x := by
  have hl : ulpExponent x + 52 = Int.log 2 x := by
    unfold ulpExponent at he ⊢
    omega
  have hle : 2 ^ (ulpExponent x + 52) ≤ x := hl ▸ Int.zpow_log_le_self (by norm_num) hx
  rw [zpow_add₀ (by norm_num), mul_comm] at hle ⊢
  have hf : 2 ^ 52 ≤ ⌊x / 2 ^ ulpExponent x⌋ := by
    rw [Int.le_floor, le_div_iff₀ (by positivity)]
    exact_mod_cast hle
  have hr : (2 : ℚ) ^ (52 : ℤ) ≤ halfEven (x / 2 ^ ulpExponent x) := by
    exact_mod_cast hf.trans (floor_le_halfEven _)
  unfold roundMagnitude
  gcongr

@[simp] theorem roundMagnitude_zero : roundMagnitude 0 = 0 := by simp [roundMagnitude, halfEven]

theorem roundMagnitude_mono (hx : 0 ≤ x) (h : x ≤ y) : roundMagnitude x ≤ roundMagnitude y := by
  rcases hx.eq_or_lt with rfl | hx
  · rw [roundMagnitude_zero]
    exact round_nonneg h
  rcases (ulpExponent_mono hx h).lt_or_eq with hlt | heq
  · -- the power of two between them is on both grids
    calc roundMagnitude x ≤ 2 ^ (ulpExponent x + 53) := roundMagnitude_le x
      _ ≤ 2 ^ (ulpExponent y + 52) := zpow_le_zpow_right₀ (by norm_num) (by omega)
      _ ≤ roundMagnitude y := le_roundMagnitude (hx.trans_le h) ((le_max_right _ _).trans_lt hlt)
  · unfold roundMagnitude
    rw [heq]
    have hd : x / 2 ^ ulpExponent y ≤ y / 2 ^ ulpExponent y := by gcongr
    have hr : (halfEven (x / 2 ^ ulpExponent y) : ℚ) ≤ halfEven (y / 2 ^ ulpExponent y) := by
      exact_mod_cast halfEven_mono hd
    gcongr

theorem roundDouble_mono (h : x ≤ y) : roundDouble x ≤ roundDouble y := by
  unfold roundDouble
  split_ifs with hx hy hy
  · exact roundMagnitude_mono hx h
  · exact absurd (hx.trans h) hy
  · exact (neg_nonpos.mpr (round_nonneg (by linarith))).trans (round_nonneg hy)
  · exact neg_le_neg (roundMagnitude_mono (by linarith) (neg_le_neg h))

theorem round_of_multiple {m : ℤ} (h : x = m * 2 ^ ulpExponent x) : roundMagnitude x = x := by
  have hd : x / 2 ^ ulpExponent x = m := by
    rw [div_eq_iff (by positivity)]
    exact h
  rw [roundMagnitude, hd, halfEven_intCast]
  exact h.symm

theorem roundMagnitude_natCast {n : Nat} (hn : n ≤ 2 ^ 53) : roundMagnitude n = n := by
  rcases Nat.eq_zero_or_pos n with rfl | hp
  · exact_mod_cast roundMagnitude_zero
  have hl : Int.log 2 (n : ℚ) = Nat.log 2 n := Int.log_natCast 2 n
  have hle : Nat.log 2 n ≤ 53 := (Nat.log_mono_right hn).trans (by rw [Nat.log_pow (by norm_num)])
  rcases hle.lt_or_eq with hlt | heq
  · -- the unit is a fraction of one
    obtain ⟨k, hk⟩ : ∃ k : Nat, ulpExponent (n : ℚ) = -k :=
      ⟨(-ulpExponent (n : ℚ)).toNat, by unfold ulpExponent; rw [hl]; omega⟩
    refine round_of_multiple (m := n * 2 ^ k) ?_
    rw [hk, zpow_neg, zpow_natCast]
    push_cast
    field_simp
  · -- only the power itself has so many digits
    have hn : n = 2 ^ 53 := le_antisymm hn (heq ▸ Nat.pow_log_le_self 2 hp.ne')
    have he : ulpExponent (n : ℚ) = 1 := by
      unfold ulpExponent
      rw [hl, heq]
      norm_num
    refine round_of_multiple (m := 2 ^ 52) ?_
    rw [he, hn]
    norm_num

theorem roundDouble_intCast {n : ℤ} (h : |n| ≤ 2 ^ 53) : roundDouble n = n := by
  unfold roundDouble
  split_ifs with hn
  · obtain ⟨k, rfl⟩ := Int.eq_ofNat_of_zero_le (Int.cast_nonneg_iff.mp hn)
    exact_mod_cast roundMagnitude_natCast (by rw [Nat.abs_cast] at h; exact_mod_cast h)
  have hng : 0 ≤ -n := by
    rw [Int.cast_nonneg_iff] at hn
    omega
  obtain ⟨k, hk⟩ := Int.eq_ofNat_of_zero_le hng
  obtain rfl : n = -k := by omega
  rw [abs_neg, Nat.abs_cast] at h
  have hr := roundMagnitude_natCast (n := k) (by exact_mod_cast h)
  push_cast
  rw [neg_neg, hr]

end

/-- A double, up to the sign of zero. -/
inductive Binary64
  | nan | negInf
  | finite (q : ℚ)
  | posInf
deriving DecidableEq

namespace Binary64

/-- The double nearest to a number, beyond the largest an infinity. -/
def ofRat (x : ℚ) : Binary64 :=
  if 2 ^ 1024 ≤ roundDouble x then posInf
  else if roundDouble x ≤ -2 ^ 1024 then negInf
  else finite (roundDouble x)

def ofInt (n : ℤ) : Binary64 := ofRat n

/-- Nothing is below or above what is not a number. -/
def lt : Binary64 → Binary64 → Bool
  | negInf, finite _ => true
  | negInf, posInf => true
  | finite a, finite b => a < b
  | finite _, posInf => true
  | _, _ => false

def le : Binary64 → Binary64 → Bool
  | negInf, negInf => true
  | negInf, finite _ => true
  | negInf, posInf => true
  | finite a, finite b => a ≤ b
  | finite _, posInf => true
  | posInf, posInf => true
  | _, _ => false

variable {a b c : Binary64} {x y : ℚ} {m n : ℤ}

theorem lt_of_lt_of_le (h : a.lt b) (h' : b.le c) : a.lt c := by
  cases a <;> cases b <;> cases c <;> simp_all [lt, le]
  exact h.trans_le h'

theorem lt_of_le_of_lt (h : a.le b) (h' : b.lt c) : a.lt c := by
  cases a <;> cases b <;> cases c <;> simp_all [lt, le]
  exact h.trans_lt h'

theorem lt_iff_ne (h : a.le b) : a.lt b ↔ b ≠ a := by
  cases a <;> cases b <;> simp_all [lt, le]
  exact ⟨fun h => h.ne', fun hn => lt_of_le_of_ne h (Ne.symm hn)⟩

theorem ofRat_mono (h : x ≤ y) : (ofRat x).le (ofRat y) := by
  have hr := roundDouble_mono h
  have ht : (0 : ℚ) < 2 ^ 1024 := by positivity
  unfold ofRat
  split_ifs <;> simp [le] <;> linarith

theorem ofInt_mono (h : m ≤ n) : (ofInt m).le (ofInt n) := ofRat_mono (by exact_mod_cast h)

theorem ofInt_exact (h : |n| ≤ 2 ^ 53) : ofInt n = finite n := by
  have hn : |(n : ℚ)| ≤ 2 ^ 53 := by exact_mod_cast h
  obtain ⟨hl, hh⟩ := abs_le.mp hn
  have hp : (2 : ℚ) ^ 53 < 2 ^ 1024 := pow_lt_pow_right₀ (by norm_num) (by norm_num)
  unfold ofInt ofRat
  rw [roundDouble_intCast h, if_neg (hh.trans_lt hp).not_ge, if_neg ((neg_lt_neg hp).trans_le hl).not_ge]

theorem ofInt_lt (hm : |m| ≤ 2 ^ 53) (hn : |n| ≤ 2 ^ 53) (h : m < n) : (ofInt m).lt (ofInt n) := by
  rw [ofInt_exact hm, ofInt_exact hn]
  simpa [lt] using h

end Binary64

variable (text : List Char)

/-- The digits at the front, and the rest. -/
def takeDigits : List Char × List Char := text.span Char.isDigit

/-- A sign at the front: is it a minus? -/
def takeSign : List Char → Bool × List Char
  | '+' :: rest => (false, rest)
  | '-' :: rest => (true, rest)
  | rest => (false, rest)

/-- Nothing, or `e` and a signed number that ends the text. -/
def parseExponent : List Char → Option ℤ
  | [] => some 0
  | c :: rest =>
    if c.toLower ≠ 'e' then none
    else
      let (negative, rest) := takeSign rest
      match takeDigits rest with
      | ([], _) => none
      | (digits, []) =>
        let n : ℤ := Nat.ofDigitChars 10 digits 0
        some (if negative then -n else n)
      | _ => none

/-- Digits with a point among them or beside them, then the exponent. -/
def parseMagnitude : Option ℚ :=
  let (whole, rest) := takeDigits text
  let (fraction, rest) := match rest with
    | '.' :: rest => takeDigits rest
    | rest => ([], rest)
  if whole = [] ∧ fraction = [] then none
  else (parseExponent rest).map fun e : ℤ =>
    Nat.ofDigitChars 10 (whole ++ fraction) 0 * 10 ^ (e - fraction.length)

/-- An infinity, or not a number. -/
def parseWord (negative : Bool) (text : List Char) : Option Binary64 :=
  let word := String.ofList (text.map Char.toLower)
  if word = "nan" then some .nan
  else if word = "inf" ∨ word = "infinity" then some (if negative then .negInf else .posInf)
  else none

/-- The double that a text spells. -/
def parseDouble (text : String) : Option Binary64 :=
  let (negative, rest) := takeSign text.toList
  match parseMagnitude rest with
  | some q => some (.ofRat (if negative then -q else q))
  | none => parseWord negative rest

section

variable {digits : List Char}

theorem takeDigits_of_digits (h : ∀ c ∈ digits, c.isDigit) : takeDigits digits = (digits, []) := by
  rw [takeDigits, List.span_eq_takeWhile_dropWhile, List.takeWhile_eq_self_iff.mpr h, List.dropWhile_eq_nil_iff.mpr h]

theorem takeSign_of_digits (h : ∀ c ∈ digits, c.isDigit) : takeSign digits = (false, digits) := by
  unfold takeSign
  split
  · exact absurd (h '+' (.head _)) (by decide)
  · exact absurd (h '-' (.head _)) (by decide)
  · rfl

theorem isDigit_toDigits (n : Nat) : ∀ c ∈ Nat.toDigits 10 n, c.isDigit :=
  fun _ hc => Nat.isDigit_of_mem_toDigits (by norm_num) (by norm_num) hc

theorem parse_toDigits (n : Nat) : parseMagnitude (Nat.toDigits 10 n) = some (n : ℚ) := by
  simp only [parseMagnitude, takeDigits_of_digits (isDigit_toDigits n)]
  simp [parseExponent, Nat.toDigits_ne_nil, Nat.ofDigitChars_ten_toDigits]

/-- An integer written in decimal is read as the double nearest to it. -/
theorem parseDouble_toString (n : ℤ) : parseDouble (toString n) = some (.ofInt n) := by
  cases n with
  | ofNat n =>
    have ht : (toString (Int.ofNat n)).toList = Nat.toDigits 10 n := by
      show (Nat.repr n).toList = _
      rw [Nat.repr_eq_ofList_toDigits, String.toList_ofList]
    simp only [parseDouble, ht, takeSign_of_digits (isDigit_toDigits n), parse_toDigits]
    rfl
  | negSucc n =>
    have ht : (toString (Int.negSucc n)).toList = '-' :: Nat.toDigits 10 (n + 1) := by
      show ("-" ++ Nat.repr (n + 1)).toList = _
      rw [Nat.repr_eq_ofList_toDigits, String.toList_append]
      exact congrArg (List.cons '-') String.toList_ofList
    simp only [parseDouble, ht, takeSign, parse_toDigits, Binary64.ofInt, Int.cast_negSucc]
    rfl

end

end Zeroship.Base
