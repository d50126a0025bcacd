/-!
# Numerals

A numeral in a JSON text is a sign, whole digits, and perhaps a fraction and an exponent.

**What a numeral stands for** (`Numeral.value?`). A whole numeral that fits 64 bits is that
integer, unsigned or with a sign. Any other numeral stands for a binary number: its leading
digits, as many as fit 64 bits, are taken as they are and multiplied or divided by a power of
ten, each step rounding. Whole digits that do not fit count as a factor of ten each, and digits
of the fraction after the first that does not fit are dropped. A numeral whose number is too
large stands for nothing.
-/

namespace Guardedness

namespace Json

/-- A numeral as it is written. -/
structure Numeral where
  negative : Bool
  whole : List Nat
  fraction : List Nat
  /-- The sign of the exponent and its digits. -/
  exponent : Option (Bool × List Nat)
deriving DecidableEq, Repr

inductive Scalar where
  | integer (n : Int)
  | float (x : Float)

namespace Numeral

/-- The number that digits write. -/
def ofDigits (ds : List Nat) : Nat := ds.foldl (fun n d => 10 * n + d) 0

/-- Append digits to a number while it fits 64 bits; the digits that do not are left over. -/
def absorb (n : Nat) : List Nat → Nat × List Nat
  | [] => (n, [])
  | d :: ds => if 10 * n + d < 1 <<< 64 then absorb (10 * n + d) ds else (n, d :: ds)

/-- The number `10 ^ k`, rounded. -/
def power (k : Nat) : Float := Float.ofScientific 1 false k

/-- The largest exponent of ten that binary numbers reach. -/
def maxPower : Nat := 308

/-- `x · 10 ^ e`, in steps that round; nothing if it is too large. -/
def scale? (x : Float) (e : Int) : Option Float :=
  if e.natAbs ≤ maxPower then
    if 0 ≤ e then
      let y := x * power e.toNat
      if y.isInf then none else some y
    else some (x / power (-e).toNat)
  else if x == 0 then some x
  else if 0 ≤ e then none
  else scale? (x / power maxPower) (e + maxPower)
termination_by e.natAbs
decreasing_by simp only [maxPower] at *; omega

/-- The binary number that a numeral stands for. -/
def float? (n : Numeral) : Option Float :=
  let (significand, left) := absorb 0 n.whole
  let (significand, dropped) := absorb significand n.fraction
  let places : Int := left.length - (n.fraction.length - dropped.length : Nat)
  let e : Int :=
    match n.exponent with
    | none => 0
    | some (true, ds) => -ofDigits ds
    | some (false, ds) => ofDigits ds
  (scale? (Float.ofNat significand) (places + e)).map fun x => if n.negative then -x else x

def value? (n : Numeral) : Option Scalar :=
  let k := ofDigits n.whole
  let isInteger := n.fraction.isEmpty && n.exponent.isNone &&
    if n.negative then 0 < k && k ≤ 1 <<< 63 else k < 1 <<< 64
  if isInteger then some (.integer (if n.negative then -k else k)) else n.float?.map .float

/-! ## Reading -/

def digit (c : Char) : Nat := c.toNat - '0'.toNat

/-- The digits a text starts with, and the rest. -/
def digits (cs : List Char) : List Nat × List Char :=
  ((cs.takeWhile Char.isDigit).map digit, cs.dropWhile Char.isDigit)

theorem digits_length_lt {cs : List Char} (h : (digits cs).1 ≠ []) :
    (digits cs).2.length < cs.length := by
  have hsplit :=
    congrArg List.length (List.takeWhile_append_dropWhile (p := Char.isDigit) (l := cs))
  have hpos : 0 < (cs.takeWhile Char.isDigit).length := by
    rw [List.length_pos_iff]
    intro h'
    exact h (by simp [digits, h'])
  simp only [List.length_append] at hsplit
  simp only [digits]
  omega

def someDigits? (cs : List Char) : Option (List Nat × List Char) :=
  if (digits cs).1.isEmpty then none else some (digits cs)

theorem someDigits?_length_lt {cs : List Char} {r : List Nat × List Char}
    (h : someDigits? cs = some r) : r.2.length < cs.length := by
  unfold someDigits? at h
  split at h
  · simp at h
  · next hne => cases h; exact digits_length_lt (by simpa using hne)

/-- The digits before the point: at least one, and no zero before another digit. -/
def whole? (cs : List Char) : Option (List Nat × List Char) :=
  match someDigits? cs with
  | some (0 :: _ :: _, _) => none
  | r => r

/-- The digits after a point, if there is one. -/
def fraction? (cs : List Char) : Option (List Nat × List Char) :=
  match cs with
  | '.' :: cs => someDigits? cs
  | cs => some ([], cs)

/-- The sign and the digits of an exponent. -/
def signedDigits? (cs : List Char) : Option ((Bool × List Nat) × List Char) :=
  match cs with
  | '-' :: cs => (someDigits? cs).map fun (ds, rest) => ((true, ds), rest)
  | '+' :: cs => (someDigits? cs).map fun (ds, rest) => ((false, ds), rest)
  | cs => (someDigits? cs).map fun (ds, rest) => ((false, ds), rest)

/-- An exponent, if there is one. -/
def exponent? (cs : List Char) : Option (Option (Bool × List Nat) × List Char) :=
  match cs with
  | 'e' :: cs | 'E' :: cs => (signedDigits? cs).map fun (e, rest) => (some e, rest)
  | cs => some (none, cs)

/-- The numeral without sign that a text starts with, and the rest. -/
def unsigned? (negative : Bool) (cs : List Char) : Option (Numeral × List Char) := do
  let (whole, cs) ← whole? cs
  let (fraction, cs) ← fraction? cs
  let (exponent, cs) ← exponent? cs
  return (⟨negative, whole, fraction, exponent⟩, cs)

/-- The numeral that a text starts with, and the rest. -/
def read? (cs : List Char) : Option (Numeral × List Char) :=
  match cs with
  | '-' :: cs => unsigned? true cs
  | cs => unsigned? false cs

/-! ## Reading makes progress -/

theorem whole?_length_lt {cs : List Char} {r : List Nat × List Char} (h : whole? cs = some r) :
    r.2.length < cs.length := by
  unfold whole? at h
  split at h
  · simp at h
  · exact someDigits?_length_lt h

theorem fraction?_length_le {cs : List Char} {r : List Nat × List Char}
    (h : fraction? cs = some r) : r.2.length ≤ cs.length := by
  unfold fraction? at h
  split at h
  · have := someDigits?_length_lt h
    simp only [List.length_cons]
    omega
  · cases h; exact Nat.le_refl _

theorem signedDigits?_length_le {cs : List Char} {r : (Bool × List Nat) × List Char}
    (h : signedDigits? cs = some r) : r.2.length ≤ cs.length := by
  unfold signedDigits? at h
  split at h
  all_goals
    simp only [Option.map_eq_some_iff] at h
    obtain ⟨⟨ds, rest⟩, hd, rfl⟩ := h
    have := someDigits?_length_lt hd
    simp only [List.length_cons] at *
    omega

theorem exponent?_length_le {cs : List Char} {r : Option (Bool × List Nat) × List Char}
    (h : exponent? cs = some r) : r.2.length ≤ cs.length := by
  unfold exponent? at h
  split at h
  any_goals
    simp only [Option.map_eq_some_iff] at h
    obtain ⟨⟨e, rest⟩, hd, rfl⟩ := h
    have := signedDigits?_length_le hd
    simp only [List.length_cons] at *
    omega
  cases h; exact Nat.le_refl _

theorem unsigned?_length_lt {negative : Bool} {cs : List Char} {r : Numeral × List Char}
    (h : unsigned? negative cs = some r) : r.2.length < cs.length := by
  simp only [unsigned?, bind, Option.bind_eq_some_iff, pure, Option.some.injEq] at h
  obtain ⟨w, hw, f, hf, e, he, rfl⟩ := h
  have h₁ := whole?_length_lt hw
  have h₂ := fraction?_length_le hf
  have h₃ := exponent?_length_le he
  exact Nat.lt_of_le_of_lt (Nat.le_trans h₃ h₂) h₁

theorem read?_length_lt {cs : List Char} {r : Numeral × List Char} (h : read? cs = some r) :
    r.2.length < cs.length := by
  unfold read? at h
  split at h
  · have := unsigned?_length_lt h
    simp only [List.length_cons]
    omega
  · exact unsigned?_length_lt h

end Numeral

end Json

end Guardedness
