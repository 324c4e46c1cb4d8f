import SecretHitler.Basic
import SecretHitler.Decimal.Natural
import SecretHitler.Json.Held
import SecretHitler.Json.Record
/-!
# Wire forms

How values are written as JSON and read back. Words are numbers within their
range; an absent option is the null value; a table is an object under decimal
keys, and a set an array.
-/

namespace SecretHitler

/-- A type whose values have a JSON form. -/
class Wire (α : Type) where
  encode : α → Json
  /-- Reads a value from a tree. -/
  decode : Json → Option α
  /-- Reads a value as its text goes by. It takes more forms than a tree may
  have only for events, rejections and what holds them. -/
  decodeText : Json → Option α := decode

export Wire (encode decode decodeText)

/-- A key with a decimal form. -/
class WireKey (κ : Type) [Ranked κ] where
  ofRank? : Nat → Option κ
  ofRank?_rank : ∀ k : κ, ofRank? (rank k) = some k

namespace Wire

variable {α κ : Type}

/-- A field that must be there. -/
def required [Wire α] (j : Json) (field : String) : Option α :=
  (j.member? field).bind decode

/-- A field that must be there, of a record that was set aside. -/
def requiredAside [Wire α] (j : Json) (field : String) : Option α :=
  (j.member? field).bind fun v => decode v.emptyAsNull

/-- A field that has a value when it is not there. -/
def orDefault [Wire α] (j : Json) (field : String) (default : α) : Option α :=
  match j.member? field with
  | none => some default
  | some v => decode v

/-- A value as one that may be absent. -/
def encodeOption [Wire α] : Option α → Json
  | none => .null
  | some a => encode a

/-- Reads a value that may be absent. -/
def decodeOption [Wire α] : Json → Option (Option α)
  | .null => some none
  | j => (decode j).map some

/-- Reads the items of an array, each in the same way. -/
def decodeItems (item : Json → Option α) : Json → Option (List α)
  | .array items => items.mapM item
  | _ => none

instance : Wire UInt32 where
  encode n := .natural n.toNat
  decode
    | .natural n => if n < UInt32.size then some (.ofNat n) else none
    | _ => none

instance : Wire UInt64 where
  encode n := .natural n.toNat
  decode
    | .natural n => if n < UInt64.size then some (.ofNat n) else none
    | _ => none

instance : Wire Bool where
  encode := .bool
  decode
    | .bool b => some b
    | _ => none

instance : Wire String where
  encode := .string
  decode
    | .string s => some s
    | _ => none

instance [Wire α] : Wire (Option α) where
  encode := encodeOption
  decode := decodeOption

instance [Wire α] : Wire (List α) where
  encode l := .array (l.map encode)
  decode := decodeItems decode
  decodeText := decodeItems decodeText

instance : WireKey UInt32 where
  ofRank? n := if n < UInt32.size then some (.ofNat n) else none
  ofRank?_rank k := by simpa [rank] using k.toNat_lt

instance : WireKey UInt64 where
  ofRank? n := if n < UInt64.size then some (.ofNat n) else none
  ofRank?_rank k := by simpa [rank] using k.toNat_lt

instance : Wire Seat where
  encode s := encode s.number
  decode j := (decode j).map Seat.mk

instance : WireKey Seat where
  ofRank? n := if n < UInt32.size then some ⟨.ofNat n⟩ else none
  ofRank?_rank k := by simpa [rank] using k.number.toNat_lt

/-- The key of an entry. -/
def decodeKey [Ranked κ] [WireKey κ] (s : String) : Option κ :=
  (Decimal.read? s).bind WireKey.ofRank?

/-- An entry as a member of an object. -/
def encodeEntry [Ranked κ] [Wire α] (e : κ × α) : String × Json :=
  (Decimal.write (rank e.1), encode e.2)

/-- Reads an entry. -/
def decodeEntry [Ranked κ] [WireKey κ] [Wire α] (m : String × Json) : Option (κ × α) := do
  let k ← decodeKey m.1
  let v ← decode m.2
  return (k, v)

/-- Reads a table. Of two entries with one key the later holds. -/
def decodeTable [Ranked κ] [WireKey κ] [Wire α] : Json → Option (Table κ α)
  | .object members => (members.mapM decodeEntry).map Table.ofList
  | _ => none

instance [Ranked κ] [WireKey κ] [Wire α] : Wire (Table κ α) where
  encode t := .object (t.entries.map encodeEntry)
  decode := decodeTable

/-- A set of seats as an array. -/
def encodeSet (s : SeatSet) : Json := encode s.keys

/-- Reads a set of seats. -/
def decodeSet (j : Json) : Option SeatSet :=
  (decode j).map fun seats : List Seat => Table.ofList (seats.map fun s => (s, ()))

end Wire

end SecretHitler
