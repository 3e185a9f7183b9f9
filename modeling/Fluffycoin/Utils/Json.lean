import Fluffycoin.Ossl.Convert

/-!
# JSON values

What the code uses of `nlohmann::json`: the value of a document, `operator[]`, `get`, iteration,
`dump` and `parse`. A read that throws is `none`. Numbers are integers here: of a floating point
number the code reads no more than the integer `get` converts it to, and it stands for that one. The
members of an object are listed in the order of the document.

The text of a document is only ever made by `dump` and read by `parse`, so it stays a parameter:
`Text T` is what the code needs of a type `T` of texts, `Text.Laws` the assumption that `parse`
inverts `dump` and that no value has an empty text.
-/

namespace Fluffycoin

/-- `nlohmann::json`. -/
inductive Json where
  | null
  | boolean (b : Bool)
  | number (n : Int)
  | string (s : List Char)
  | array (l : List Json)
  | object (l : List (String × Json))
  deriving Inhabited

namespace Json

/-- `operator[]` on a value that may be written to: a missing member is made, as `null`, and a
`null` becomes an object. -/
def member (key : String) : Json → Option Json
  | .null => some .null
  | .object l => some ((l.lookup key).getD .null)
  | _ => none

/-- `operator[]` on a `const` value. A missing member is undefined behaviour there; it counts as a
failure. -/
def constMember (key : String) : Json → Option Json
  | .object l => l.lookup key
  | _ => none

/-- `get<std::string>()`. -/
def getString : Json → Option (List Char)
  | .string s => some s
  | _ => none

/-- `get<unsigned int>()`, which converts booleans too. -/
def getUInt32 : Json → Option UInt32
  | .number n => some (UInt32.ofInt n)
  | .boolean b => some (if b then 1 else 0)
  | _ => none

/-- `get<uint64_t>()`, the library's own type of unsigned numbers, to which a boolean is not
converted. -/
def getUInt64 : Json → Option UInt64
  | .number n => some (UInt64.ofInt n)
  | _ => none

/-- What a range-based `for` over the value visits. -/
def elements : Json → List Json
  | .null => []
  | .array l => l
  | .object l => l.map Prod.snd
  | j => [j]

/-- `dump` and `parse` over a type of texts with an empty one. -/
structure Text (T : Type) where
  empty : T
  dump : Json → T
  parse : T → Option Json

/-- `parse` inverts `dump`, and a dumped value is not empty. -/
structure Text.Laws {T : Type} (t : Text T) : Prop where
  parse_dump : ∀ j, t.parse (t.dump j) = some j
  dump_ne_empty : ∀ j, t.dump j ≠ t.empty

theorem getUInt32_number (n : UInt32) : getUInt32 (.number n.toNat) = some n := by
  have hn : n.toNat < 2 ^ 32 := n.toNat_lt
  show some (UInt32.ofInt n.toNat) = some n
  rw [Ossl.ofInt_natCast32 hn, UInt32.ofNat_toNat]

theorem getUInt64_number (n : UInt64) : getUInt64 (.number n.toNat) = some n := by
  have hn : n.toNat < 2 ^ 64 := n.toNat_lt
  show some (UInt64.ofInt n.toNat) = some n
  rw [Ossl.ofInt_natCast64 hn, UInt64.ofNat_toNat]

/-- The values themselves as texts, beside an empty one. -/
def plainText : Text (Option Json) := ⟨none, some, id⟩

theorem plainText_laws : plainText.Laws := ⟨fun _ => rfl, fun _ h => by cases h⟩

end Json

end Fluffycoin
