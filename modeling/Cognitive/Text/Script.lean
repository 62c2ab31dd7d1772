import Cognitive.Text.Quoted
/-!
# Texts with lone halves

A character beyond the first 65536 is written as a pair of surrogates in some encodings.  A text that comes from
outside may hold half of such a pair without the other half.  It is a text like any other until it is to be encoded in
UTF-8, which has no bytes for lone halves; then the first run of them is to blame.
-/
namespace Cognitive

/-- A surrogate, by how many come before it. -/
abbrev Half := Fin 0x800

/-- What a text consists of: characters, and halves of pairs that have lost the other half. -/
inductive CodePoint where
  | char (c : Char)
  | half (h : Half)
deriving DecidableEq, Repr

namespace CodePoint

def firstSurrogate : Nat := 0xD800

/-- The code point with a number: half a pair, or the character with that number. -/
def ofNat (n : Nat) : CodePoint :=
  if h : firstSurrogate ≤ n ∧ n - firstSurrogate < 0x800 then .half ⟨n - firstSurrogate, h.2⟩ else .char (Char.ofNat n)

def isHalf : CodePoint → Bool
  | .char _ => false
  | .half _ => true

def char? : CodePoint → Option Char
  | .char c => some c
  | .half _ => none

end CodePoint

/-- A text that may hold lone halves. -/
structure Script where
  points : List CodePoint
deriving DecidableEq, Repr

/-- A run of lone halves: how many code points come before it, the first half, and how many more follow it. -/
structure Tear where
  position : Nat
  first : Half
  more : Nat
deriving DecidableEq, Repr

/-- What is said of a text that cannot be encoded. -/
def Tear.message (t : Tear) : String :=
  let found :=
    if t.more = 0 then
      " '" ++ String.ofList (Text.hexEscape 'u' 4 (CodePoint.firstSurrogate + t.first)) ++ "' in position "
        ++ toString t.position
    else "s in position " ++ toString t.position ++ "-" ++ toString (t.position + t.more)
  "'utf-8' codec can't encode character" ++ found ++ ": surrogates not allowed"

namespace Script

def ofString (text : String) : Script := ⟨text.toList.map .char⟩

instance : Coe String Script := ⟨ofString⟩

/-- The first run of lone halves, after some code points. -/
def tearFrom (position : Nat) : List CodePoint → Option Tear
  | [] => none
  | .char _ :: rest => tearFrom (position + 1) rest
  | .half h :: rest => some ⟨position, h, (rest.takeWhile CodePoint.isHalf).length⟩

def tear? (s : Script) : Option Tear := tearFrom 0 s.points

/-- The text as it is shown, with a replacement character for each lone half. -/
def shown (s : Script) : String := String.ofList (s.points.map fun p => p.char?.getD (Char.ofNat 0xFFFD))

def isEmpty (s : Script) : Bool := s.points.isEmpty

theorem tearFrom_eq_none_iff {points : List CodePoint} : ∀ {position : Nat},
    tearFrom position points = none ↔ ∀ p ∈ points, p.isHalf = false := by
  induction points with
  | nil => simp [tearFrom]
  | cons p points ih => cases p <;> simp [tearFrom, CodePoint.isHalf, ih]

theorem tear?_eq_none_iff {s : Script} : s.tear? = none ↔ ∃ text, s = ofString text := by
  rw [tear?, tearFrom_eq_none_iff]
  constructor
  · intro h
    have hchars : s.points.map (CodePoint.char ∘ fun p => p.char?.getD (Char.ofNat 0xFFFD)) = s.points := by
      conv => rhs; rw [← List.map_id s.points]
      refine List.map_congr_left fun p hp => ?_
      cases p with
      | char c => rfl
      | half n => cases h _ hp
    exact ⟨s.shown, by rw [ofString, shown, String.toList_ofList, List.map_map, hchars]⟩
  · rintro ⟨text, rfl⟩ p hp
    obtain ⟨c, -, rfl⟩ := List.mem_map.1 hp
    rfl

@[simp] theorem tear?_ofString (text : String) : (ofString text).tear? = none := tear?_eq_none_iff.2 ⟨text, rfl⟩

@[simp] theorem shown_ofString (text : String) : (ofString text).shown = text := by
  simp [shown, ofString, Function.comp_def, CodePoint.char?]

theorem ofString_inj {text text' : String} : ofString text = ofString text' ↔ text = text' := by
  constructor
  · intro h
    rw [← shown_ofString text, h, shown_ofString]
  · exact congrArg ofString

end Script
end Cognitive
